/-
# What the operations of the store leave alone

Most steps of the store touch the journal and the memory only.  `SameFiles` says that the
blobs, the manifests and the states of the jobs are as they were; a property `OfFiles` is kept
by every operation that only journals and counts, so that a proof about files looks at the few
steps that rename and unlink.
-/

import LaneBroker.Store.Serving

namespace LaneBroker
namespace Store

open LaneBroker.Basis Fallible

variable {σ ι : Type}

/-- **The files are the same.** -/
structure SameFiles (s t : ObjectStore σ ι) : Prop where
  blobs : t.blobs = s.blobs
  manifests : t.manifests = s.manifests
  metas : t.metas = s.metas

/-- **A property of the files and of the cache.** -/
def OfFiles (P : ObjectStore σ ι → Prop) : Prop :=
  ∀ s t, SameFiles s t → t.jobBlobCache = s.jobBlobCache → P s → P t

theorem SameFiles.refl (s : ObjectStore σ ι) : SameFiles s s := ⟨rfl, rfl, rfl⟩

theorem SameFiles.trans {s t u : ObjectStore σ ι} (h : SameFiles s t) (h' : SameFiles t u) :
    SameFiles s u :=
  ⟨h'.blobs.trans h.blobs, h'.manifests.trans h.manifests, h'.metas.trans h.metas⟩

/-- The manifest of a job. -/
def ObjectStore.docOf [DecidableEq ι] (C : Contents σ) (s : ObjectStore σ ι) (job : ι) : Option (Doc σ) :=
  (s.manifests.read job).bind C.parseManifestDoc

section Keeps

variable [DecidableEq σ] [DecidableEq ι] {P : ObjectStore σ ι → Prop} (hP : OfFiles P)

include hP

omit [DecidableEq σ] [DecidableEq ι] in
/-- **A record is appended**, or fails to be. -/
theorem keeps_append (f : Fields σ ι) : Keeps P (append f) := by
  intro io s hs
  unfold append Ends
  dsimp only
  split_ifs
  · exact hs
  · cases io (.append f)
    · exact hP s _ ⟨rfl, rfl, rfl⟩ rfl hs
    · exact hs
    · exact hP s _ ⟨rfl, rfl, rfl⟩ rfl hs
    · exact hP s _ ⟨rfl, rfl, rfl⟩ rfl hs

theorem keeps_journalDelete (path : Path σ ι) : Keeps P (journalDelete path) :=
  (keeps_append hP _).bind fun _ => keeps_modify fun s hs => hP s _ ⟨rfl, rfl, rfl⟩ rfl hs

/-- The deletes that are due are journaled. -/
theorem keeps_flushPendingDeletes : Keeps P (flushPendingDeletes : Op σ ι Unit) :=
  keeps_get.bind fun _ => keeps_forM _ fun path => keeps_journalDelete hP path

/-- An intent is taken back. -/
theorem keeps_cancelIntent (path : Path σ ι) : Keeps P (cancelIntent path) := by
  refine keeps_get.bind fun s => ?_
  split_ifs
  · exact (keeps_append hP _).bind fun _ =>
      keeps_modify fun s hs => hP s _ ⟨rfl, rfl, rfl⟩ rfl hs
  · exact keeps_pure _

variable (C : Contents σ)

theorem keeps_journalBlob (sha : σ) : Keeps P (journalBlob C sha) :=
  keeps_ask.bind fun _ => (keeps_append hP _).bind fun _ =>
    keeps_modify fun s hs => hP s _ ⟨rfl, rfl, rfl⟩ rfl hs

/-- A blob gets its record, if it has none. -/
theorem keeps_journalIfNeeded (sha : σ) : Keeps P (journalIfNeeded C sha) := by
  refine keeps_get.bind fun s => ?_
  split_ifs
  · exact keeps_journalBlob hP C sha
  · exact keeps_pure _

/-- A file without a record gets one. -/
theorem keeps_journalOrphan (path : Path σ ι) : Keeps P (journalOrphan C path) := by
  refine keeps_ask.bind fun content => ?_
  split
  · exact keeps_raise _
  · split_ifs
    · exact keeps_pure _
    · exact keeps_append hP _
  · exact keeps_append hP _

/-- A record without its file is deleted from the journal. -/
theorem keeps_settleMissing (state : Path σ ι → Option ObjState) (path : Path σ ι) :
    Keeps P (settleMissing state path) := by
  unfold settleMissing
  split
  · exact keeps_append hP _
  · exact keeps_modify fun s hs => hP s _ ⟨rfl, rfl, rfl⟩ rfl hs
  · exact keeps_pure _

/-- **`reconcile` touches the journal only.** -/
theorem keeps_reconcile : Keeps P (reconcile C : Op σ ι Unit) :=
  keeps_ask.bind fun _ => (keeps_forM _ fun path => keeps_journalOrphan hP C path).bind fun _ =>
    keeps_forM _ fun path => keeps_settleMissing hP _ path

theorem keeps_rejournalPath (path : Path σ ι) : Keeps P (rejournalPath C path) := by
  refine Keeps.bind (keeps_modify fun s hs => ?_) fun _ => ?_
  · exact hP s _ ⟨rfl, rfl, rfl⟩ rfl hs
  refine Keeps.ensuring (keeps_ask.bind fun content => ?_)
    (keeps_modify fun s hs => hP s _ ⟨rfl, rfl, rfl⟩ rfl hs)
  split
  · exact keeps_pure _
  · exact keeps_append hP _

/-- **So does `rejournal`.** -/
theorem keeps_rejournal (paths : List (Path σ ι)) : Keeps P (rejournal C paths) := by
  refine (keeps_flushPendingDeletes hP).under.bind fun _ => ?_
  generalize 1 = k
  induction paths generalizing k with
  | nil => exact keeps_pure _
  | cons path paths ih => exact (keeps_rejournalPath hP C path).under.bind fun _ => ih (k + 1)

end Keeps

section Reads

variable [DecidableEq σ] [DecidableEq ι] {P : ObjectStore σ ι → Prop} (C : Contents σ)

/-- A blob is hashed. -/
theorem keeps_intactBlob (sha : σ) (size : Nat) : Keeps P (intactBlob C sha size : Op σ ι Bool) := by
  refine keeps_ask.bind fun there => ?_
  split_ifs
  · exact keeps_pure _
  · refine keeps_ask.bind fun content => ?_
    split <;> exact keeps_pure _

variable {C} {s : ObjectStore σ ι}

omit [DecidableEq σ] in
/-- The manifest of a job is a matter of the files. -/
theorem docOf_congr {s t : ObjectStore σ ι} (h : t.manifests = s.manifests) (job : ι) :
    t.docOf C job = s.docOf C job := by
  simp [ObjectStore.docOf, h]

omit [DecidableEq σ] in
/-- **`readManifest` reads the manifest of the job.** -/
theorem readManifest_ends (s : ObjectStore σ ι) (io : Io σ ι) (job : ι) :
    Ends io (readManifest C job) s
      (fun r t => t = s ∧ r = s.docOf C job ∧ (r = none → s.manifests.read job = none))
      (fun _ t => t = s) (fun t => t = s) := by
  refine ends_ask_bind ?_ rfl rfl
  cases hread : s.manifests.read job with
  | none => exact ⟨rfl, by simp [ObjectStore.docOf, hread], fun _ => rfl⟩
  | some content =>
    dsimp only
    cases hdoc : C.parseManifestDoc content with
    | none => exact rfl
    | some d => exact ⟨rfl, by simp [ObjectStore.docOf, hread, hdoc], fun hnone => by cases hnone⟩

/-- **`intactBlob`, of an intact blob**: a blob of the size is there or not. -/
theorem intactBlob_ends {sha : σ} (h : ∀ f, s.blobs.read sha = some f → f.content = sha)
    (io : Io σ ι) :
    Ends io (intactBlob C sha (C.sizeOf sha)) s
      (fun r t => t = s ∧ (r = false → s.blobs.read sha = none)) (fun _ t => t = s)
      fun t => t = s := by
  refine ends_ask_bind ?_ rfl rfl
  cases hread : s.blobs.read sha with
  | none =>
    rw [if_pos (by simp [ObjectStore.sizeOnDisk, hread])]
    exact ⟨rfl, fun _ => rfl⟩
  | some f =>
    have hcontent := h f hread
    rw [if_neg (by simp [ObjectStore.sizeOnDisk, hread, hcontent])]
    refine ends_ask_bind ?_ rfl rfl
    simp [hread, hcontent]

/-- **`missingFiles` finds what is missing.** -/
theorem missingFiles_ends (s : ObjectStore σ ι) (io : Io σ ι) (files : List (σ × Nat)) :
    Ends io (missingFiles C files) s
      (fun r t => t = s ∧ (r = [] → ∀ f ∈ files, s.sizeOnDisk C (.blob f.1) = some f.2))
      (fun _ t => t = s) fun t => t = s := by
  induction files with
  | nil => exact ⟨rfl, fun _ f hf => by cases hf⟩
  | cons f files ih =>
    refine ends_ask_bind ?_ rfl rfl
    refine ih.bind fun r t ht => ?_
    obtain ⟨rfl, hr⟩ := ht
    by_cases hsize : t.sizeOnDisk C (.blob f.1) = some f.2
    · rw [if_neg (not_not.2 hsize)]
      refine ⟨rfl, fun hnil g hg => ?_⟩
      rcases List.mem_cons.1 hg with rfl | hg
      · exact hsize
      · exact hr hnil g hg
    · rw [if_pos hsize]
      exact ⟨rfl, nofun⟩

/-- What is in the file of an object. -/
def ObjectStore.contentAt (s : ObjectStore σ ι) : Path σ ι → Option σ
  | .blob sha => (s.blobs.read sha).map BlobFile.content
  | .manifest job => s.manifests.read job

theorem contentOnDisk_eq (path : Path σ ι) :
    contentOnDisk path = Fallible.ask (.hash path) .io fun s => s.contentAt path := rfl

/-- What can be read is there. -/
theorem has_of_contentAt {path : Path σ ι} {content : σ} (h : s.contentAt path = some content) :
    s.has path = true := by
  cases path with
  | blob sha =>
    obtain ⟨f, hf, -⟩ := Option.map_eq_some_iff.1 h
    simp [ObjectStore.has, hf]
  | manifest job =>
    have hread : s.manifests.read job = some content := h
    simp [ObjectStore.has, hread]

/-- What is not there cannot be read. -/
theorem not_has_of_contentAt {path : Path σ ι} (h : s.contentAt path = none) :
    s.has path = false := by
  cases path with
  | blob sha =>
    have hread := Option.map_eq_none_iff.1 h
    simp [ObjectStore.has, hread]
  | manifest job =>
    have hread : s.manifests.read job = none := h
    simp [ObjectStore.has, hread]

/-! ### Reading with the cache -/

variable {io : Io σ ι} {D : ObjectStore σ ι → Prop} (hD : ∀ s, P s → D s)
  (hcache : ∀ s cache, P s → P { s with jobBlobCache := cache })

omit [DecidableEq σ] in
include hD hcache in
/-- **The blobs of a job are read**, and the cache filled, whatever fails. -/
theorem lasts_jobBlobs (job : ι) : Lasts io P D (jobBlobs C job) := by
  refine lasts_get.bind fun s => ?_
  split
  · exact lasts_pure _
  · refine Lasts.bind ?_ fun doc => ?_
    · refine (lasts_ask hD).bind fun content => ?_
      split
      · exact lasts_pure _
      · split
        · exact lasts_raise _
        · exact lasts_pure _
    · split
      · exact lasts_pure _
      · exact (lasts_modify fun t ht => hcache t _ ht).bind fun _ => lasts_pure _

include hD hcache in
/-- Is a blob one of a live job? -/
theorem lasts_isProtectedBlob (sha : σ) : Lasts io P D (isProtectedBlob C sha) := by
  refine (lasts_ask hD).bind fun jobs => ?_
  induction jobs with
  | nil => exact lasts_pure _
  | cons job jobs ih =>
    refine (lasts_ask hD).bind fun m => ?_
    split_ifs
    · exact ih
    · refine (lasts_jobBlobs hD hcache job).bind fun set => ?_
      split_ifs
      · exact lasts_pure _
      · exact ih

end Reads

/-! ### Sweeping -/

section Sweep

variable [DecidableEq σ] [DecidableEq ι] {P D : ObjectStore σ ι → Prop} {C : Contents σ}
  {io : SweepPass σ ι × Site σ ι → Answer} (hD : ∀ s, P s → D s)
  (hread : ∀ pass job, Lasts (fun c => io (pass, c)) P D (jobBlobs C job))
  (hdelete : ∀ pass path, Lasts (fun c => io (pass, c)) P D (deleteObject C path))

omit [DecidableEq σ] in
include hD in
theorem lasts_readMetas {io : Io σ ι} (jobs : List ι) : Lasts io P D (readMetas jobs : Op σ ι _) := by
  induction jobs with
  | nil => exact lasts_pure _
  | cons job jobs ih => exact (lasts_ask hD).bind fun _ => ih.bind fun _ => lasts_pure _

omit [DecidableEq σ] in
include hD in
/-- The blobs of all jobs. -/
theorem lasts_referencedBlobs {io : Io σ ι} (hread : ∀ job, Lasts io P D (jobBlobs C job)) :
    Lasts io P D (referencedBlobs C : Op σ ι _) := by
  refine (lasts_ask hD).bind fun jobs => ?_
  induction jobs with
  | nil => exact lasts_pure _
  | cons job jobs ih => exact (hread job).bind fun _ => ih.bind fun _ => lasts_pure _

include hdelete in
/-- **Manifests go when they are due.** -/
theorem lasts_expireManifests (jobs : List ι) : Lasts io P D (expireManifests C jobs) := by
  induction jobs with
  | nil => exact lasts_pure _
  | cons job jobs ih => exact (Lasts.under (hdelete _ _)).bind fun _ => ih

include hD hread hdelete in
/-- **The blobs that no job has go**, after their grace. -/
theorem lasts_sweepBlobs (now graceMs : Int) :
    Lasts io P D (sweepBlobs C now graceMs : SweepOp σ ι _) := by
  refine (Lasts.under (lasts_referencedBlobs hD (hread _))).bind fun referenced =>
    (Lasts.under (lasts_ask hD)).bind fun files => ?_
  induction files with
  | nil => exact lasts_pure _
  | cons f files ih =>
    unfold sweepEach
    split_ifs
    · exact ih
    · exact (Lasts.under (hdelete _ _)).bind fun _ => ih.bind fun _ => lasts_pure _

include hdelete in
/-- The blobs of one job go, but for those that another has. -/
theorem lasts_freeBlobs (job : ι) (still shas : List σ) :
    Lasts io P D (freeBlobs C job still shas) := by
  induction shas with
  | nil => exact lasts_pure _
  | cons sha shas ih =>
    unfold freeBlobs
    split_ifs
    · exact ih
    · exact (Lasts.under (hdelete _ _)).bind fun _ => ih.bind fun _ => lasts_pure _

include hD hread hdelete in
/-- **The eviction**, job by job. -/
theorem lasts_evict (cfg : Config) (jobs : List ι) : Lasts io P D (evict C cfg jobs) := by
  induction jobs with
  | nil => exact lasts_pure _
  | cons job jobs ih =>
    refine lasts_get.bind fun s => ?_
    split_ifs
    · exact (Lasts.under (hread _ job)).bind fun _ => (Lasts.under (hdelete _ _)).bind fun _ =>
        (Lasts.under (lasts_referencedBlobs hD (hread _))).bind fun _ =>
          (lasts_freeBlobs hdelete _ _ _).bind fun _ => ih.bind fun _ => lasts_pure _
    · exact lasts_pure _

include hD hread hdelete in
/-- **A sweep keeps what a deletion keeps**, and what the reading of manifests keeps. -/
theorem lasts_sweep (cfg : Config) (times : RetentionTimes) (now : Int) :
    Lasts io P D (sweep C cfg times now : SweepOp σ ι _) := by
  have hmetas : ∀ pass : SweepPass σ ι, Lasts (fun c => io (pass, c)) P D ((do readMetas (← listManifests)) : Op σ ι _) :=
    fun _ => (lasts_ask hD).bind fun _ => lasts_readMetas hD _
  refine (Lasts.under (hmetas _)).bind fun ms => (lasts_expireManifests hdelete _).bind fun _ =>
    (lasts_sweepBlobs hD hread hdelete _ _).bind fun swept => Lasts.bind ?_ fun _ =>
      lasts_get.bind fun _ => lasts_pure _
  unfold evictOldest
  split_ifs
  · exact lasts_pure _
  · exact (Lasts.under (hmetas _)).bind fun _ => lasts_evict hD hread hdelete cfg _

end Sweep

end Store
end LaneBroker
