/-
# The blobs of protected jobs

A job that is pinned or not terminal keeps its blobs: `deleteObject` refuses a blob that such
a job references, whoever asks.  `Guarded` is the invariant that carries this through every
operation and every failure: the blobs of protected jobs are stored with the sizes their
manifests state, and what the cache says of a stored manifest is what the manifest says.

Two steps can break it, and `Guards` excludes them: a job is registered while the cache still
has the blobs of another manifest that it had before, and a job that was not protected is
pinned when blobs of it are gone.
-/

import LaneBroker.Store.Frames

namespace LaneBroker
namespace Store

open LaneBroker.Basis Fallible

variable {σ ι : Type} [DecidableEq σ] [DecidableEq ι] (C : Contents σ) (cfg : Config)

/-! ### Protected jobs -/

omit [DecidableEq σ] [DecidableEq ι] in
/-- **A job in this state is protected**: it is pinned or not terminal. -/
def Meta.Protected (m : Meta) : Prop := m.pinned = true ∨ m.terminalAt = none

instance (m : Meta) : Decidable m.Protected := inferInstanceAs (Decidable (_ ∨ _))

/-- The state of a job. -/
def ObjectStore.metaOf (s : ObjectStore σ ι) (job : ι) : Meta := (s.metas.read job).getD {}

/-- **Every blob of a manifest is stored**, with the size that the manifest states. -/
def Complete (s : ObjectStore σ ι) (d : Doc σ) : Prop :=
  ∀ f ∈ d.files, s.sizeOnDisk C (.blob f.1) = some f.2

/-- **The invariant.** -/
structure Guarded (s : ObjectStore σ ι) : Prop where
  intact : ∀ sha f, s.blobs.read sha = some f → f.content = sha
  complete : ∀ job d, s.docOf C job = some d → (s.metaOf job).Protected → Complete C s d
  cached : ∀ e ∈ s.jobBlobCache, ∀ d, s.docOf C e.1 = some d → e.2 = d.blobs

/-- No protected job references the blob. -/
def Unreferenced (sha : σ) (s : ObjectStore σ ι) : Prop :=
  ∀ job d, s.docOf C job = some d → (s.metaOf job).Protected → sha ∉ d.blobs

/-- A job may be in a state. -/
def MayBe (job : ι) (m : Meta) (s : ObjectStore σ ι) : Prop :=
  m.Protected → ∀ d, s.docOf C job = some d → Complete C s d

section Frames

variable {C}

theorem complete_of_blobs {s t : ObjectStore σ ι} {d : Doc σ} (h : Complete C s d)
    (hb : t.blobs = s.blobs) : Complete C t d := by
  intro f hf
  rw [← h f hf]
  simp [ObjectStore.sizeOnDisk, hb]

omit [DecidableEq σ] in
theorem metaOf_congr {s t : ObjectStore σ ι} (h : t.metas = s.metas) (job : ι) :
    t.metaOf job = s.metaOf job := by
  simp [ObjectStore.metaOf, h]

theorem ofFiles_guarded : OfFiles (Guarded C : ObjectStore σ ι → Prop) := by
  rintro s t h hc hs
  refine ⟨fun sha f hf => hs.intact sha f (h.blobs ▸ hf), fun job d hd hp => ?_, fun e he d hd => ?_⟩
  · rw [docOf_congr h.manifests] at hd
    rw [metaOf_congr h.metas] at hp
    exact complete_of_blobs (hs.complete job d hd hp) h.blobs
  · rw [docOf_congr h.manifests] at hd
    exact hs.cached e (hc ▸ he) d hd

omit [DecidableEq σ] in
theorem Unreferenced.of_files {s t : ObjectStore σ ι} {sha : σ} (hs : Unreferenced C sha s)
    (h : SameFiles s t) : Unreferenced C sha t := by
  intro job d hd hp
  rw [docOf_congr h.manifests] at hd
  rw [metaOf_congr h.metas] at hp
  exact hs job d hd hp

theorem MayBe.of_files {s t : ObjectStore σ ι} {job : ι} {m : Meta} (hs : MayBe C job m s)
    (hb : t.blobs = s.blobs) (hm : t.manifests = s.manifests) : MayBe C job m t := by
  intro hp d hd
  rw [docOf_congr hm] at hd
  exact complete_of_blobs (hs hp d hd) hb

end Frames

/-! ### Reading -/

section Reading

variable {C} {s : ObjectStore σ ι} {io : Io σ ι}

/-- **`jobBlobs` returns the blobs of the manifest**, from the cache or not. -/
theorem jobBlobs_ends (h : Guarded C s) (job : ι) :
    Ends io (jobBlobs C job) s
      (fun r t => (SameFiles s t ∧ Guarded C t) ∧
        ∀ d, s.docOf C job = some d → r = some d.blobs)
      (fun _ => Guarded C) (Guarded C) := by
  unfold jobBlobs
  rw [ends_bind, ends_get]
  cases hlookup : s.jobBlobCache.lookup job with
  | some set =>
    refine ⟨⟨.refl s, h⟩, fun d hd => ?_⟩
    have hmem : (job, set) ∈ s.jobBlobCache := by
      obtain ⟨l₁, l₂, heq, -⟩ := List.lookup_eq_some_iff.1 hlookup
      rw [heq]
      simp
    exact congrArg some (h.cached (job, set) hmem d hd)
  | none =>
    refine ((readManifest_ends s io job).mono (fun _ _ h => h) (fun _ t ht => ht ▸ h)
      fun t ht => ht ▸ h).bind fun r t ht => ?_
    obtain ⟨rfl, rfl, -⟩ := ht
    cases hdoc : t.docOf C job with
    | none => exact ⟨⟨.refl t, h⟩, fun d hd => by cases hd⟩
    | some d =>
      refine ⟨⟨⟨rfl, rfl, rfl⟩, h.intact, h.complete, fun e he d' hd' => ?_⟩, fun d' hd' => ?_⟩
      · rcases List.mem_append.1 he with he | he
        · refine h.cached e ?_ d' hd'
          split_ifs at he
          · exact List.mem_of_mem_tail he
          · exact he
        · obtain rfl := List.mem_singleton.1 he
          have : t.docOf C job = some d' := hd'
          rw [hdoc] at this
          rw [Option.some.inj this]
      · rw [Option.some.inj hd']

theorem keeps_jobBlobs (job : ι) : Keeps (Guarded C) (jobBlobs C job : Op σ ι _) :=
  fun _ _ h => (jobBlobs_ends h job).imp fun _ _ hr => hr.1.2

/-- **`isProtectedBlob` finds every protected job that references the blob.** -/
theorem isProtectedBlob_ends (h : Guarded C s) (sha : σ) :
    Ends io (isProtectedBlob C sha) s
      (fun r t => (SameFiles s t ∧ Guarded C t) ∧ (r = false → Unreferenced C sha t))
      (fun _ => Guarded C) (Guarded C) := by
  have hloop : ∀ jobs : List ι, ∀ t, SameFiles s t → Guarded C t →
      Ends io (isProtectedBy C sha jobs) t
        (fun r t => (SameFiles s t ∧ Guarded C t) ∧ (r = false → ∀ job ∈ jobs, ∀ d,
          s.docOf C job = some d → (s.metaOf job).Protected → sha ∉ d.blobs))
        (fun _ => Guarded C) (Guarded C) := by
    intro jobs
    induction jobs with
    | nil => exact fun t hst ht => ⟨⟨hst, ht⟩, fun _ job hjob => by cases hjob⟩
    | cons job jobs ih =>
      intro t hst ht
      unfold isProtectedBy readMeta
      refine ends_ask_bind ?_ ht ht
      have hmeta : (t.metas.read job).getD {} = s.metaOf job := metaOf_congr hst.metas job
      rw [hmeta]
      by_cases hfree : (!(s.metaOf job).pinned && (s.metaOf job).terminalAt.isSome) = true
      · rw [if_pos hfree]
        refine (ih t hst ht).imp fun r v hv => ⟨hv.1, fun hr job' hjob' d hd hp => ?_⟩
        rcases List.mem_cons.1 hjob' with rfl | hjob'
        · simp only [Bool.and_eq_true, Bool.not_eq_true'] at hfree
          rcases hp with hp | hp
          · rw [hp] at hfree
            exact absurd hfree.1 (by simp)
          · rw [hp] at hfree
            exact absurd hfree.2 (by simp)
        · exact hv.2 hr job' hjob' d hd hp
      · rw [if_neg hfree]
        refine (jobBlobs_ends ht job).bind fun r v hv => ?_
        obtain ⟨⟨huv, hv⟩, hset⟩ := hv
        have hsv := hst.trans huv
        by_cases hin : (r.any fun set => set.contains sha) = true
        · rw [if_pos hin]
          exact ⟨⟨hsv, hv⟩, nofun⟩
        · rw [if_neg hin]
          refine (ih v hsv hv).imp fun r' x hx => ⟨hx.1, fun hr job' hjob' d hd hp => ?_⟩
          rcases List.mem_cons.1 hjob' with rfl | hjob'
          · rw [hset d (by rw [docOf_congr hst.manifests]; exact hd)] at hin
            simpa using hin
          · exact hx.2 hr job' hjob' d hd hp
  unfold isProtectedBlob listManifests
  refine ends_ask_bind ?_ h h
  refine (hloop _ s (.refl s) h).imp fun r t ht => ⟨ht.1, fun hr => ?_⟩
  have hsame := ht.1.1
  refine Unreferenced.of_files (s := s) (fun job d hd hp => ?_) hsame
  obtain ⟨c, hc, -⟩ := Option.bind_eq_some_iff.1 hd
  exact ht.2 hr job (List.mem_map.2 ⟨(job, c), Dir.mem_of_read hc, rfl⟩) d hd hp

end Reading

/-! ### Deleting -/

section Deleting

variable {C} {s : ObjectStore σ ι}

/-- Without a blob that no protected job references. -/
theorem Guarded.unlinkBlob (h : Guarded C s) {sha : σ} (hfree : Unreferenced C sha s) :
    Guarded C { s with blobs := s.blobs.unlink sha } := by
  refine ⟨fun sha' f hf => ?_, fun job d hd hp f hf => ?_, h.cached⟩
  · change (s.blobs.unlink sha).read sha' = some f at hf
    rw [Dir.read_unlink] at hf
    split_ifs at hf
    exact h.intact sha' f hf
  · rw [← h.complete job d hd hp f hf]
    have hne : f.1 ≠ sha := by
      rintro rfl
      exact hfree job d hd hp (List.mem_map_of_mem hf)
    simp [ObjectStore.sizeOnDisk, Dir.read_unlink_of_ne _ hne]

/-- Without a manifest. -/
theorem Guarded.unlinkManifest (h : Guarded C s) (job : ι) :
    Guarded C { s with manifests := s.manifests.unlink job } := by
  have hdoc : ∀ job' d, ObjectStore.docOf C { s with manifests := s.manifests.unlink job } job' =
      some d → s.docOf C job' = some d := by
    intro job' d hd
    unfold ObjectStore.docOf at hd ⊢
    rw [Dir.read_unlink] at hd
    split_ifs at hd
    · cases hd
    · exact hd
  exact ⟨h.intact, fun job' d hd => h.complete job' d (hdoc job' d hd),
    fun e he d hd => h.cached e he d (hdoc e.1 d hd)⟩

/-- Without the state of a job that has no manifest. -/
theorem Guarded.unlinkMeta (h : Guarded C s) {job : ι} (hnone : s.manifests.read job = none) :
    Guarded C { s with metas := s.metas.unlink job } := by
  refine ⟨h.intact, fun job' d hd hp => ?_, h.cached⟩
  have hne : job' ≠ job := by
    rintro rfl
    have hdoc : (s.manifests.read job').bind C.parseManifestDoc = some d := hd
    rw [hnone] at hdoc
    cases hdoc
  refine h.complete job' d hd ?_
  change ((s.metas.unlink job).read job' |>.getD {}).Protected at hp
  rwa [Dir.read_unlink_of_ne _ hne] at hp

/-- The guard and that a job has no manifest. -/
def WithoutManifest (C : Contents σ) (job : ι) (s : ObjectStore σ ι) : Prop :=
  Guarded C s ∧ s.manifests.read job = none

theorem ofFiles_withoutManifest (job : ι) : OfFiles (WithoutManifest C job) :=
  fun s t h hc hs => ⟨ofFiles_guarded s t h hc hs.1, h.manifests ▸ hs.2⟩

theorem keeps_removeMeta (job : ι) : Keeps (WithoutManifest C job) (removeMeta job : Op σ ι Unit) :=
  keeps_call fun _ hs => ⟨hs.1.unlinkMeta hs.2, hs.2⟩

/-- The cache forgets a job. -/
theorem Guarded.uncache (h : Guarded C s) (job : ι) :
    Guarded C { s with jobBlobCache := s.jobBlobCache.filter fun e => e.1 ≠ job } :=
  ⟨h.intact, h.complete, fun e he => h.cached e (List.mem_of_mem_filter he)⟩

theorem keeps_dropJob (job : ι) :
    Keeps (WithoutManifest C job) (dropJob (.manifest job) : Op σ ι Unit) :=
  (keeps_removeMeta job).bind fun _ => (keeps_call fun _ h => h).bind fun _ =>
    keeps_modify fun _ hs => ⟨hs.1.uncache job, hs.2⟩

/-- **Once a deletion is allowed, the guard holds through it.** -/
theorem removeObject_ends {P : ObjectStore σ ι → Prop} (hP : OfFiles P)
    (hguard : ∀ s, P s → Guarded C s) (path : Path σ ι) (size : Nat) (io : Io σ ι)
    (hblob : ∀ sha, path = .blob sha → ∀ s, P s → Unreferenced C sha s) (h : P s) :
    Ends io (removeObject path size) s (fun _ => Guarded C) (fun _ => Guarded C) (Guarded C) := by
  have hend : ∀ {t : ObjectStore σ ι}, Guarded C t → ∀ {α : Type} {m : Op σ ι α}, Keeps (Guarded C) m →
      Ends io m t (fun _ => Guarded C) (fun _ => Guarded C) (Guarded C) := fun ht _ _ hm => hm io _ ht
  unfold removeObject
  have happend := keeps_append hP (.deleteIntent path) io s h
  refine (happend.mono (fun _ _ h => h) (fun _ t ht => hguard t ht) hguard).bind fun _ t ht => ?_
  rw [ends_bind, ends_modify]
  have ht' : P { t with intents := addTo t.intents path } := hP t _ ⟨rfl, rfl, rfl⟩ rfl ht
  generalize { t with intents := addTo t.intents path } = u at ht'
  rw [ends_bind]
  cases path with
  | blob sha =>
    refine ends_call (fun _ => ?_) (fun _ => hguard u ht') fun _ => hguard u ht'
    refine hend ((hguard u ht').unlinkBlob (hblob sha rfl u ht')) ?_
    refine (keeps_call fun _ h => h).bind fun _ => Keeps.bind (keeps_modify fun s hs => ?_) fun _ =>
      Keeps.bind (keeps_pure _) fun _ => (keeps_journalDelete ofFiles_guarded _).bind fun _ =>
        keeps_modify fun s hs => ?_
    · exact ofFiles_guarded s _ ⟨rfl, rfl, rfl⟩ rfl hs
    · exact ofFiles_guarded s _ ⟨rfl, rfl, rfl⟩ rfl hs
  | manifest job =>
    refine ends_call (fun _ => ?_) (fun _ => hguard u ht') fun _ => hguard u ht'
    have hgone : WithoutManifest C job { u with manifests := u.manifests.unlink job } :=
      ⟨(hguard u ht').unlinkManifest job, Dir.read_unlink_self ..⟩
    have hrest : Keeps (WithoutManifest C job) (do
        Fallible.call (.syncDirectory (.manifest job)) .io id
        Fallible.modify fun s =>
          { s with
            bytes := s.bytes - size
            pendingDeletes := addTo s.pendingDeletes (.manifest job) }
        dropJob (.manifest job)
        journalDelete (.manifest job)
        Fallible.modify fun s => { s with intents := removeFrom s.intents (.manifest job) } :
          Op σ ι Unit) := by
      have hof := ofFiles_withoutManifest (C := C) (σ := σ) job
      refine (keeps_call fun _ h => h).bind fun _ => Keeps.bind (keeps_modify fun s hs => ?_)
        fun _ => (keeps_dropJob job).bind fun _ => (keeps_journalDelete hof _).bind fun _ =>
          keeps_modify fun s hs => ?_
      · exact hof s _ ⟨rfl, rfl, rfl⟩ rfl hs
      · exact hof s _ ⟨rfl, rfl, rfl⟩ rfl hs
    exact (hrest io _ hgone).mono (fun _ _ h => h.1) (fun _ _ h => h.1) fun _ h => h.1

/-- **A deletion keeps the guard.** -/
theorem keeps_deleteObject (path : Path σ ι) : Keeps (Guarded C) (deleteObject C path) := by
  intro io s h
  -- what the guard of the deletion has found, in terms of files only
  have hrefuse : Ends io (refuseProtected C path) s
      (fun _ t => Guarded C t ∧ ∀ sha, path = .blob sha → Unreferenced C sha t)
      (fun _ => Guarded C) (Guarded C) := by
    cases path with
    | manifest job => exact ⟨h, nofun⟩
    | blob sha =>
      refine (isProtectedBlob_ends h sha).bind fun r t ht => ?_
      cases r with
      | true => exact ht.1.2
      | false =>
        refine ⟨ht.1.2, fun sha' heq => ?_⟩
        injection heq with heq
        exact heq ▸ ht.2 rfl
  have hP : OfFiles fun t : ObjectStore σ ι =>
      Guarded C t ∧ ∀ sha, path = .blob sha → Unreferenced C sha t :=
    fun s t hf hc hs => ⟨ofFiles_guarded s t hf hc hs.1, fun sha heq => (hs.2 sha heq).of_files hf⟩
  unfold deleteObject
  refine hrefuse.bind fun _ t ht => ?_
  rw [ends_bind, ends_get]
  split_ifs
  · exact ht.1
  · have hflush := keeps_flushPendingDeletes hP io t ht
    refine (hflush.mono (fun _ _ h => h) (fun _ _ h => h.1) fun _ h => h.1).bind fun _ u hu => ?_
    refine ends_ask_bind ?_ hu.1 hu.1
    cases u.sizeOnDisk C path with
    | none => exact hu.1
    | some size =>
      refine (removeObject_ends hP (fun _ h => h.1) path size io (fun sha heq s hs => hs.2 sha heq)
        hu).bind fun _ v hv => hv

end Deleting

/-! ### Uploading -/

section Uploading

variable {C} {s : ObjectStore σ ι}

/-- The guard of what is there without a blob, and what is there of the blob is intact: it may be
rolled back. -/
def WithoutBlob (C : Contents σ) (sha : σ) (s : ObjectStore σ ι) : Prop :=
  Guarded C { s with blobs := s.blobs.unlink sha } ∧
    ∀ f, s.blobs.read sha = some f → f.content = sha

theorem ofFiles_withoutBlob (sha : σ) :
    OfFiles (WithoutBlob C sha : ObjectStore σ ι → Prop) := by
  intro s t h hc hs
  refine ⟨ofFiles_guarded { s with blobs := s.blobs.unlink sha } _
    ⟨?_, h.manifests, h.metas⟩ hc hs.1, h.blobs ▸ hs.2⟩
  exact congrArg (Dir.unlink · sha) h.blobs

/-- Files that read the same are the same to the guard. -/
theorem Guarded.of_read (h : Guarded C s) {t : ObjectStore σ ι}
    (hblobs : ∀ sha, t.blobs.read sha = s.blobs.read sha ∨
      ∃ f, t.blobs.read sha = some f ∧ f.content = sha)
    (hm : t.manifests = s.manifests) (hme : t.metas = s.metas)
    (hc : t.jobBlobCache = s.jobBlobCache) : Guarded C t := by
  refine ⟨fun sha f hf => ?_, fun job d hd hp f hf => ?_, fun e he d hd => ?_⟩
  · rcases hblobs sha with hsame | ⟨g, hg, hcontent⟩
    · exact h.intact sha f (hsame ▸ hf)
    · rw [hg] at hf
      exact Option.some.inj hf ▸ hcontent
  · rw [docOf_congr hm] at hd
    rw [metaOf_congr hme] at hp
    have hold := h.complete job d hd hp f hf
    rcases hblobs f.1 with hsame | ⟨g, hg, hcontent⟩
    · simpa [ObjectStore.sizeOnDisk, hsame] using hold
    · -- an intact blob has the size of what it is named after
      obtain ⟨g', hg', hsize⟩ := Option.map_eq_some_iff.1 hold
      have hcontent' := h.intact f.1 g' hg'
      rw [hcontent'] at hsize
      simp [ObjectStore.sizeOnDisk, hg, hcontent, hsize]
  · rw [docOf_congr hm] at hd
    exact h.cached e (hc ▸ he) d hd

theorem WithoutBlob.guarded {sha : σ} (h : WithoutBlob C sha s) : Guarded C s := by
  refine h.1.of_read (fun sha' => ?_) rfl rfl rfl
  by_cases heq : sha' = sha
  · subst heq
    cases hread : s.blobs.read sha' with
    | none => exact .inl (Dir.read_unlink_self ..).symm
    | some f => exact .inr ⟨f, rfl, h.2 f hread⟩
  · exact .inl (Dir.read_unlink_of_ne _ heq).symm

/-- A blob that is not there can be rolled back. -/
theorem Guarded.withoutBlob (h : Guarded C s) {sha : σ} (hnone : s.blobs.read sha = none) :
    WithoutBlob C sha s := by
  refine ⟨h.of_read (fun sha' => .inl ?_) rfl rfl rfl, fun f hf => by rw [hnone] at hf; cases hf⟩
  change (s.blobs.unlink sha).read sha' = _
  by_cases heq : sha' = sha
  · rw [heq, hnone, Dir.read_unlink_self]
  · exact Dir.read_unlink_of_ne _ heq

theorem keeps_stamp_withoutBlob (sha : σ) :
    Keeps (WithoutBlob C sha) (stamp sha : Op σ ι Unit) := by
  refine keeps_call fun s hs => ?_
  cases hread : s.blobs.read sha with
  | none => exact hs
  | some f =>
    refine ⟨?_, fun g hg => ?_⟩
    · change Guarded C { s with blobs := (s.blobs.write sha _).unlink sha }
      rw [Dir.unlink_write]
      exact hs.1
    · change (s.blobs.write sha _).read sha = some g at hg
      rw [Dir.read_write_self] at hg
      exact Option.some.inj hg ▸ hs.2 f hread

theorem keeps_stamp (sha : σ) : Keeps (Guarded C) (stamp sha : Op σ ι Unit) := by
  refine keeps_call fun s hs => ?_
  cases hread : s.blobs.read sha with
  | none => exact hs
  | some f =>
    refine hs.of_read (fun sha' => ?_) rfl rfl rfl
    change (s.blobs.write sha _).read sha' = _ ∨ ∃ g, (s.blobs.write sha _).read sha' = some g ∧ _
    rw [Dir.read_write]
    split_ifs with heq
    · exact .inr ⟨_, rfl, heq ▸ hs.intact sha f hread⟩
    · exact .inl rfl

theorem keeps_commitBlob (sha : σ) : Keeps (WithoutBlob C sha) (commitBlob C sha : Op σ ι Unit) := by
  have hP := ofFiles_withoutBlob (C := C) (ι := ι) sha
  exact (keeps_stamp_withoutBlob sha).bind fun _ => (keeps_call fun _ h => h).bind fun _ =>
    (keeps_journalBlob hP C sha).bind fun _ => keeps_modify fun s hs => hP s _ ⟨rfl, rfl, rfl⟩ rfl hs

theorem keeps_undoBlob (sha : σ) : Keeps (WithoutBlob C sha) (undoBlob C sha : Op σ ι Unit) := by
  have hP := ofFiles_withoutBlob (C := C) (ι := ι) sha
  refine Keeps.handle (Keeps.bind (keeps_call fun s hs => ?_) fun _ => keeps_modify fun s hs => ?_)
    fun _ => keeps_modify fun s hs => ?_
  · exact hs.1.withoutBlob (Dir.read_unlink_self ..)
  · exact hP s _ ⟨rfl, rfl, rfl⟩ rfl hs
  · exact hP s _ ⟨rfl, rfl, rfl⟩ rfl hs

theorem keeps_renameBlob (sha : σ) (replaced : Nat) :
    Keeps (WithoutBlob C sha) (renameBlob C sha replaced : Op σ ι Unit) := by
  refine Keeps.bind (keeps_call fun s hs => ⟨?_, fun f hf => ?_⟩) fun _ =>
    keeps_modify fun s hs => ofFiles_withoutBlob sha s _ ⟨rfl, rfl, rfl⟩ rfl hs
  · change Guarded C { s with blobs := (s.blobs.write sha _).unlink sha }
    rw [Dir.unlink_write]
    exact hs.1
  · change (s.blobs.write sha _).read sha = some f at hf
    rw [Dir.read_write_self] at hf
    rw [← Option.some.inj hf]

theorem keeps_acknowledgeDuplicate (sha body : σ) :
    Keeps (Guarded C) (acknowledgeDuplicate C sha body : Op σ ι Bool) := by
  have hP := ofFiles_guarded (C := C) (ι := ι)
  refine (keeps_call fun _ h => h).bind fun _ => ?_
  split_ifs
  · exact keeps_raise _
  · refine keeps_ask.bind fun size => ?_
    split_ifs
    · exact keeps_raise _
    · exact (keeps_stamp sha).bind fun _ => (keeps_journalIfNeeded hP C sha).bind fun _ =>
        (keeps_cancelIntent hP _).bind fun _ => keeps_pure _

theorem keeps_storeBlob (cfg : Config) (sha body : σ) (declaredSize : Nat) :
    Keeps (Guarded C) (storeBlob C cfg sha body declaredSize : Op σ ι Bool) := by
  have hP := ofFiles_guarded (C := C) (ι := ι)
  refine (keeps_call fun _ h => h).bind fun _ io s h => ?_
  dsimp only
  split_ifs with hlarge hbody
  · exact h
  · exact h
  · have hbody : body = sha := not_not.1 hbody
    subst hbody
    refine ((intactBlob_ends (h.intact body) io).mono (fun _ _ h => h) (fun _ t ht => ht ▸ h)
      fun t ht => ht ▸ h).bind fun r t ht => ?_
    obtain ⟨rfl, hr⟩ := ht
    cases r with
    | true =>
      exact ((keeps_stamp body).bind fun _ => (keeps_journalIfNeeded hP C body).bind fun _ =>
        keeps_pure _) io t h
    | false =>
      -- the blob is not there, so the rollback takes nothing that was there
      have hw := h.withoutBlob (hr rfl)
      have hPw := ofFiles_withoutBlob (C := C) (ι := ι) body
      refine ends_ask_bind ?_ h h
      rw [ends_bind, ends_get]
      split_ifs
      · exact h
      · have hrest : Keeps (WithoutBlob C body) (do
            flushPendingDeletes
            renameBlob C body ((t.sizeOnDisk C (.blob body)).getD 0)
            Fallible.handle (commitBlob C body) fun e => do
              undoBlob C body
              Fallible.raise e
            return true : Op σ ι Bool) :=
          (keeps_flushPendingDeletes hPw).bind fun _ => (keeps_renameBlob body _).bind fun _ =>
            ((keeps_commitBlob body).handle fun e => (keeps_undoBlob body).bind fun _ =>
              keeps_raise e).bind fun _ => keeps_pure _
        exact (hrest io t hw).mono (fun _ _ h => h.guarded) (fun _ _ h => h.guarded)
          fun _ h => h.guarded

/-- **An upload keeps the guard.** -/
theorem keeps_putBlob (cfg : Config) (sha body : σ) (declaredSize : Nat) :
    Keeps (Guarded C) (putBlob C cfg sha body declaredSize : Op σ ι Bool) := by
  have hP := ofFiles_guarded (C := C) (ι := ι)
  unfold putBlob
  split_ifs
  · exact keeps_raise _
  · refine (keeps_intactBlob C sha declaredSize).bind fun r => ?_
    cases r with
    | true => exact keeps_acknowledgeDuplicate sha body
    | false =>
      refine Keeps.bind (keeps_get.bind fun t => ?_) fun _ =>
        Keeps.ensuring (keeps_storeBlob cfg sha body declaredSize)
          (Keeps.bind (keeps_modify fun s hs => hP s _ ⟨rfl, rfl, rfl⟩ rfl hs) fun _ =>
            keeps_call fun _ h => h)
      split_ifs
      · exact keeps_raise _
      · exact keeps_modify fun s hs => hP s _ ⟨rfl, rfl, rfl⟩ rfl hs

end Uploading

/-! ### Registering -/

section Registering

variable {C} {s : ObjectStore σ ι}

/-- What `registerManifest` has found before it writes. -/
def Registrable (C : Contents σ) (job : ι) (d : Doc σ) (s : ObjectStore σ ι) : Prop :=
  WithoutManifest C job s ∧ Complete C s d ∧ ∀ e ∈ s.jobBlobCache, e.1 = job → e.2 = d.blobs

/-- What holds behind the write. -/
def Registered (C : Contents σ) (job : ι) (d : Doc σ) (s : ObjectStore σ ι) : Prop :=
  Guarded C s ∧ s.docOf C job = some d ∧ Complete C s d

theorem ofFiles_registrable (job : ι) (d : Doc σ) : OfFiles (Registrable C job d) := by
  intro s t h hc hs
  refine ⟨ofFiles_withoutManifest job s t h hc hs.1, complete_of_blobs hs.2.1 h.blobs, fun e he => ?_⟩
  exact hs.2.2 e (hc ▸ he)

theorem ofFiles_registered (job : ι) (d : Doc σ) : OfFiles (Registered C job d) :=
  fun s t h hc hs => ⟨ofFiles_guarded s t h hc hs.1, docOf_congr (C := C) h.manifests job ▸ hs.2.1,
    complete_of_blobs hs.2.2 h.blobs⟩

theorem Registrable.written {job : ι} {d : Doc σ} {content : σ} (h : Registrable C job d s)
    (hdoc : C.parseManifestDoc content = some d) :
    Registered C job d { s with manifests := s.manifests.write job content } := by
  obtain ⟨⟨hguard, -⟩, hcomplete, hcache⟩ := h
  have hread : ∀ job', ObjectStore.docOf C { s with manifests := s.manifests.write job content } job' =
      if job' = job then some d else s.docOf C job' := by
    intro job'
    unfold ObjectStore.docOf
    rw [Dir.read_write]
    split_ifs
    · simp [hdoc]
    · rfl
  refine ⟨⟨hguard.intact, fun job' d' hd' hp => ?_, fun e he d' hd' => ?_⟩, ?_, hcomplete⟩
  · rw [hread] at hd'
    split_ifs at hd'
    · exact Option.some.inj hd' ▸ hcomplete
    · exact hguard.complete job' d' hd' hp
  · rw [hread] at hd'
    split_ifs at hd' with heq
    · exact Option.some.inj hd' ▸ hcache e he heq
    · exact hguard.cached e he d' hd'
  · rw [hread, if_pos rfl]

/-- A state that a job may be in. -/
theorem Guarded.writeMeta (h : Guarded C s) {job : ι} {m : Meta} (hm : MayBe C job m s) :
    Guarded C { s with metas := s.metas.write job m } := by
  refine ⟨h.intact, fun job' d hd hp => ?_, h.cached⟩
  change ((s.metas.write job m).read job' |>.getD {}).Protected at hp
  rw [Dir.read_write] at hp
  split_ifs at hp with heq
  · exact hm hp d (heq ▸ hd)
  · exact h.complete job' d hd hp

theorem Registered.mayBe {job : ι} {d : Doc σ} (h : Registered C job d s) (m : Meta) :
    MayBe C job m s := by
  intro _ d' hd'
  rw [h.2.1] at hd'
  exact Option.some.inj hd' ▸ h.2.2

theorem keeps_writeMeta_registered (job : ι) (d : Doc σ) (m : Meta) :
    Keeps (Registered C job d) (writeMeta job m : Op σ ι Unit) :=
  keeps_write fun _ hs => ⟨hs.1.writeMeta (hs.mayBe m), hs.2.1, hs.2.2⟩

/-- The rollback of a registration keeps the guard. -/
theorem undoManifest_ends {job : ι} (h : Guarded C s) (size : Nat) (io : Io σ ι) :
    Ends io (undoManifest job size) s (fun _ => Guarded C) (fun _ => Guarded C) (Guarded C) := by
  refine Ends.bind (R := fun _ => WithoutManifest C job) ?_ fun _ t ht => ?_
  · exact ends_call (fun _ => ⟨h.unlinkManifest job, Dir.read_unlink_self ..⟩) (fun _ => h) fun _ => h
  · refine ((keeps_removeMeta job) io t ht |>.mono (fun _ _ h => h) (fun _ _ h => h.1)
      fun _ h => h.1).bind fun _ u hu => ?_
    exact ofFiles_guarded u _ ⟨rfl, rfl, rfl⟩ rfl hu.1

/-- **A registration keeps the guard**, if what is cached of the job is what it registers. -/
theorem registerManifest_ends (cfg : Config) (h : Guarded C s) {job : ι} {content : σ} (io : Io σ ι)
    (hcache : s.manifests.read job = none → ∀ e ∈ s.jobBlobCache, e.1 = job →
      ∀ d, C.parseManifestDoc content = some d → e.2 = d.blobs) :
    Ends io (registerManifest C cfg job content) s (fun _ => Guarded C) (fun _ => Guarded C)
      (Guarded C) := by
  unfold registerManifest
  dsimp only
  split_ifs
  · exact h
  · cases hdoc : C.parseManifestDoc content with
    | none => exact h
    | some d =>
      refine ((readManifest_ends s io job).mono (fun _ _ h => h) (fun _ t ht => ht ▸ h)
        fun t ht => ht ▸ h).bind fun r t ht => ?_
      obtain ⟨rfl, -, hnone⟩ := ht
      cases r with
      | some existing =>
        dsimp only
        split_ifs
        · exact h
        · exact h
      | none =>
        refine ((missingFiles_ends t io d.files).mono (fun _ _ h => h) (fun _ u hu => hu ▸ h)
          fun u hu => hu ▸ h).bind fun missing u hu => ?_
        obtain ⟨rfl, hmissing⟩ := hu
        by_cases hnil : missing = []
        · rw [if_neg (not_not.2 hnil), ends_bind, ends_get]
          have hr : Registrable C job d u :=
            ⟨⟨h, hnone rfl⟩, hmissing hnil, fun e he heq => hcache (hnone rfl) e he heq d hdoc⟩
          split_ifs
          · exact h
          · have hP := ofFiles_registrable (C := C) job d
            have hP' := ofFiles_registered (C := C) job d
            have hprepare : Keeps (Registrable C job d) (do
                flushPendingDeletes
                d.blobs.forM (journalIfNeeded C)
                d.blobs.forM fun sha => cancelIntent (.blob sha) : Op σ ι Unit) :=
              (keeps_flushPendingDeletes hP).bind fun _ =>
                (keeps_forM _ fun sha => keeps_journalIfNeeded hP C sha).bind fun _ =>
                  keeps_forM _ fun sha => keeps_cancelIntent hP _
            have hthrow : ∀ {t : ObjectStore σ ι}, Registered C job d t → Guarded C t := fun h => h.1
            have hpre := (hprepare io u hr).mono (fun _ _ h => h) (fun _ _ h => h.1.1) fun _ h => h.1.1
            rw [ends_bind] at hpre
            refine hpre.bind fun _ v hv => ?_
            rw [ends_bind] at hv
            refine hv.bind fun _ x hx => hx.bind fun _ y hy => ?_
            refine Ends.bind (R := fun _ => Registered C job d) ?_ fun _ z hz => ?_
            · exact ends_write (fun _ => hy.written hdoc) (fun _ => hy.1.1)
                (fun _ => (hy.written hdoc).1) fun _ => hy.1.1
            · rw [ends_bind, ends_modify, ends_bind, ends_handle]
              have hz' : Registered C job d { z with bytes := z.bytes + C.sizeOf content } :=
                hP' z _ ⟨rfl, rfl, rfl⟩ rfl hz
              refine Ends.mono (R := fun _ => Registered C job d)
                (T := fun _ => Registered C job d) (D := Registered C job d) ?_
                (fun _ v hv => ofFiles_guarded v _ ⟨rfl, rfl, rfl⟩ rfl hv.1)
                (fun e v hv => (undoManifest_ends hv.1 _ io).bind fun _ _ h => h) fun _ hv => hv.1
              exact (keeps_get.bind fun _ => (keeps_writeMeta_registered job d _).bind fun _ =>
                keeps_append hP' _) io _ hz'
        · rw [if_pos hnil]
          exact h

end Registering

/-! ### Pins and marks -/

section Marking

variable {C} {s : ObjectStore σ ι}

/-- The guard, and two states that a job may be in. -/
def Markable (C : Contents σ) (job : ι) (before after : Meta) (s : ObjectStore σ ι) : Prop :=
  Guarded C s ∧ MayBe C job before s ∧ MayBe C job after s

theorem ofFiles_markable (job : ι) (before after : Meta) :
    OfFiles (Markable C job before after) :=
  fun s t h hc hs => ⟨ofFiles_guarded s t h hc hs.1, hs.2.1.of_files h.blobs h.manifests,
    hs.2.2.of_files h.blobs h.manifests⟩

/-- **A pin or a terminal mark keeps the guard**, if the job it protects has its blobs. -/
theorem setJobState_ends (h : Guarded C s) {job : ι} {field : StateField} (io : Io σ ι)
    (hfield : ¬(s.metaOf job).Protected → MayBe C job (field.set (s.metaOf job)) s) :
    Ends io (setJobState C job field) s (fun _ => Guarded C) (fun _ => Guarded C) (Guarded C) := by
  have hbefore : MayBe C job (s.metaOf job) s := fun hp d hd => h.complete job d hd hp
  have hafter : MayBe C job (field.set (s.metaOf job)) s := by
    by_cases hp : (s.metaOf job).Protected
    · exact fun _ => hbefore hp
    · exact hfield hp
  refine ((readManifest_ends s io job).mono (fun _ _ h => h) (fun _ t ht => ht ▸ h)
    fun t ht => ht ▸ h).bind fun r t ht => ?_
  obtain ⟨rfl, -, -⟩ := ht
  cases r with
  | none => exact h
  | some d =>
    have hP : OfFiles fun u : ObjectStore σ ι =>
        Markable C job (t.metaOf job) (field.set (t.metaOf job)) u ∧ u.metas = t.metas :=
      fun u v huv hc hu => ⟨ofFiles_markable _ _ _ u v huv hc hu.1, huv.metas.trans hu.2⟩
    have hflush := keeps_flushPendingDeletes hP io t ⟨⟨h, hbefore, hafter⟩, rfl⟩
    refine (hflush.mono (fun _ _ h => h) (fun _ _ h => h.1.1) fun _ h => h.1.1).bind
      fun _ u hu => ?_
    obtain ⟨hu, hmetas⟩ := hu
    refine ends_ask_bind ?_ hu.1 hu.1
    have hmeta : (u.metas.read job).getD {} = t.metaOf job := by rw [hmetas]; rfl
    rw [hmeta]
    dsimp only
    split_ifs
    · exact hu.1
    · have hP' := ofFiles_markable (C := C) job (t.metaOf job) (field.set (t.metaOf job))
      have hwrite : ∀ m, (m = t.metaOf job ∨ m = field.set (t.metaOf job)) →
          Keeps (Markable C job (t.metaOf job) (field.set (t.metaOf job)))
            (writeMeta job m : Op σ ι Unit) := by
        rintro m (rfl | rfl)
        · exact keeps_write fun v hv => ⟨hv.1.writeMeta hv.2.1, hv.2.1, hv.2.2⟩
        · exact keeps_write fun v hv => ⟨hv.1.writeMeta hv.2.2, hv.2.1, hv.2.2⟩
      refine ((hwrite _ (.inr rfl)).bind fun _ => ((keeps_append hP' _).handle fun e =>
        (hwrite _ (.inl rfl)).bind fun _ => keeps_raise e).bind fun _ => keeps_pure _) io u hu |>.mono
          (fun _ _ h => h.1) (fun _ _ h => h.1) fun _ h => h.1

end Marking

/-! ### Runs -/

section Runs

/-- **The steps that keep the guard**: no job is registered while something else is cached as its
blobs, and no unprotected job is pinned while a blob of it is missing.  (The power stays.) -/
def Guards (w : StoreWorld σ ι) : StoreMove σ ι → Prop
  | .registerManifest job content _ =>
    w.store.manifests.read job = none → ∀ e ∈ w.store.jobBlobCache, e.1 = job →
      ∀ d, C.parseManifestDoc content = some d → e.2 = d.blobs
  | .setJobState job field _ =>
    ¬(w.store.metaOf job).Protected → (field.set (w.store.metaOf job)).Protected →
      ∀ d, w.store.docOf C job = some d → Complete C w.store d
  | .powerLoss _ _ _ => False
  | _ => True

variable {C} {w w' : StoreWorld σ ι}

omit [DecidableEq σ] [DecidableEq ι] in
/-- **What an operation keeps, the process keeps.** -/
theorem runs_keeps [DecidableEq σ] [DecidableEq ι] {κ α : Type} {P : ObjectStore σ ι → Prop}
    {m : Fallible κ (ObjectStore σ ι) (StoreError σ) α} {io : κ → Answer} {acked : List (Path σ ι)}
    (h : Ends io m w.store (fun _ => P) (fun _ => P) P) (hnext : w.runs m io acked = some w') :
    P w'.store := by
  unfold StoreWorld.runs at hnext
  unfold Ends at h
  split_ifs at hnext
  generalize m io w.store = r at hnext h
  obtain ⟨o, s⟩ := r
  cases o <;> (obtain rfl := Option.some.inj hnext; exact h)

/-- **What the opening keeps**, of the state that the new process starts in. -/
theorem opens_keeps {P : ObjectStore σ ι → Prop} {adopt : Bool} {io : Io σ ι}
    (h : Ends io (reconcile C) (w.store.restarted C adopt) (fun _ => P) (fun _ => P) P)
    (hnext : w.opens C adopt io = some w') : P w'.store := by
  unfold StoreWorld.opens at hnext
  unfold Ends at h
  split_ifs at hnext
  generalize reconcile C io (w.store.restarted C adopt) = r at hnext h
  obtain ⟨o, s⟩ := r
  cases o <;> (obtain rfl := Option.some.inj hnext; exact h)

theorem guarded_opens (h : Guarded C w.store) {adopt : Bool} {io : Io σ ι}
    (hnext : w.opens C adopt io = some w') : Guarded C w'.store := by
  have hstart : Guarded C (w.store.restarted C adopt) :=
    ⟨h.intact, h.complete, fun e he => by cases he⟩
  exact opens_keeps (keeps_reconcile ofFiles_guarded C io _ hstart) hnext

/-- **The step lemma.** -/
theorem Guarded.next (h : Guarded C w.store) {a : StoreMove σ ι} (hok : Guards C w a)
    (hnext : w.next C cfg a = some w') : Guarded C w'.store := by
  have hP := ofFiles_guarded (C := C) (ι := ι)
  cases a with
  | opens adopt io => exact guarded_opens h hnext
  | putBlob sha body declaredSize io =>
    exact runs_keeps (keeps_putBlob cfg sha body declaredSize io _ h) hnext
  | registerManifest job content io =>
    exact runs_keeps (registerManifest_ends cfg h io hok) hnext
  | setJobState job field io =>
    exact runs_keeps (setJobState_ends h io fun hp hp' => hok hp hp') hnext
  | deleteObject path io => exact runs_keeps (keeps_deleteObject path io _ h) hnext
  | sweep times io =>
    exact runs_keeps (lasts_sweep (fun _ h => h) (fun _ job => keeps_jobBlobs job _)
      (fun _ path => keeps_deleteObject path _) cfg times _ _ h) hnext
  | rejournal paths io => exact runs_keeps (keeps_rejournal hP C paths io _ h) hnext
  | maintain io => exact runs_keeps (keeps_flushPendingDeletes hP io _ h) hnext
  | tick now =>
    obtain rfl := Option.some.inj hnext
    exact hP w.store _ ⟨rfl, rfl, rfl⟩ rfl h
  | dies =>
    unfold StoreWorld.next at hnext
    dsimp only at hnext
    split_ifs at hnext
    obtain rfl := Option.some.inj hnext
    exact h
  | powerLoss blobs manifests metas => exact hok.elim

/-- **The blobs of a job that is pinned or not terminal stay**, in every run in which no job is
registered while other blobs are cached for it, and no terminal, unpinned job is pinned while a
blob of it is missing. -/
theorem protected_blobs_stay (h : (storeMachine C cfg).Reach (Guards C) w) :
    ∀ job d, w.store.docOf C job = some d → (w.store.metaOf job).Protected →
      ∀ f ∈ d.files, w.store.sizeOnDisk C (.blob f.1) = some f.2 := by
  have hguard : Guarded C w.store := by
    refine h.invariant (P := fun w => Guarded C w.store) (fun w hw => ?_)
      fun w a w' hs hok hnext => hs.next cfg hok hnext
    obtain rfl := hw
    constructor
    · exact fun _ _ hf => by cases hf
    · exact fun _ _ hd => by cases hd
    · exact fun _ he => by cases he
  exact hguard.complete

end Runs

/-- A pinned job, whose blob is asked to be deleted. -/
def pinsAndDeletes : List (StoreMove Nat Unit) :=
  [.opens true allOk, .putBlob 0 0 1 allOk, .registerManifest () 10 allOk,
    .setJobState () (.pinned true) allOk, .setJobState () (.terminalAt 5) allOk,
    .deleteObject (.blob 0) allOk]

/-- The blob of the pinned job is still there. -/
theorem protected_blobs_stay_pinned : ∃ w : StoreWorld Nat Unit,
    (storeMachine smallContents smallConfig).Reach (Guards smallContents) w ∧
      w.store.docOf smallContents () = some { manifestHash := 10, files := [(0, 1)] } ∧
        w.store.sizeOnDisk smallContents (.blob 0) = some 1 := by
  have hok : (storeMachine smallContents smallConfig).Along (Guards smallContents) {}
      pinsAndDeletes := by
    refine Machine.along_of_check (fun w a =>
      match a with
      | .registerManifest _ _ _ => w.store.jobBlobCache.isEmpty
      | .setJobState job _ _ => (w.store.metaOf job).Protected
      | .powerLoss _ _ _ => false
      | _ => true) (fun w a h => ?_) _ (by decide +kernel)
    cases a with
    | registerManifest job content io =>
      intro _ e he
      rw [List.isEmpty_iff.1 h] at he
      cases he
    | setJobState job field io => exact fun hp => absurd (of_decide_eq_true h) hp
    | powerLoss blobs manifests metas => cases h
    | _ => trivial
  obtain ⟨w, hw, hp⟩ := Machine.exists_reach_of_exec (storeMachine smallContents smallConfig)
    {} pinsAndDeletes
    (fun w => decide (w.store.docOf smallContents () =
      some { manifestHash := 10, files := [(0, 1)] } ∧ (w.store.metaOf ()).Protected))
    rfl hok (by decide +kernel)
  obtain ⟨hdoc, hprot⟩ := of_decide_eq_true hp
  exact ⟨w, hw, hdoc, protected_blobs_stay smallConfig hw () _ hdoc hprot (0, 1) (by simp)⟩

/-- A terminal job's blob is deleted, and then the job is pinned. -/
def deletesAndPins : List (StoreMove Nat Unit) :=
  [.opens true allOk, .putBlob 0 0 1 allOk, .registerManifest () 10 allOk,
    .setJobState () (.terminalAt 5) allOk, .deleteObject (.blob 0) allOk,
    .setJobState () (.pinned true) allOk]

/-- A manifest is deleted, where the sync behind the unlink fails and its blobs stay cached; the
job is registered again with another manifest. -/
def deletesWithCache : List (StoreMove Nat Unit) :=
  [.opens true allOk, .putBlob 0 0 1 allOk, .registerManifest () 10 allOk,
    .deleteObject (.blob 0) allOk,
    .deleteObject (.manifest ()) (failsAt (.syncDirectory (.manifest ())) .fails),
    .putBlob 1 1 1 allOk, .registerManifest () 11 allOk, .deleteObject (.blob 1) allOk]

/-- **A protected job can lose a blob**: pinned when the blob is gone, or not terminal, but
registered when the cache was stale. -/
theorem protected_blob_missing :
    (∃ w : StoreWorld Nat Unit,
      (storeMachine smallContents smallConfig).Reach (fun _ _ => True) w ∧
        w.store.docOf smallContents () = some { manifestHash := 10, files := [(0, 1)] } ∧
          (w.store.metaOf ()).pinned = true ∧ w.store.sizeOnDisk smallContents (.blob 0) = none) ∧
      ∃ w : StoreWorld Nat Unit,
        (storeMachine smallContents smallConfig).Reach (fun _ _ => True) w ∧
          w.store.docOf smallContents () = some { manifestHash := 11, files := [(1, 1)] } ∧
            (w.store.metaOf ()).terminalAt = none ∧
              w.store.sizeOnDisk smallContents (.blob 1) = none := by
  constructor
  · obtain ⟨w, hw, hp⟩ := Machine.exists_reach_of_exec (storeMachine smallContents smallConfig)
      {} deletesAndPins
      (fun w => decide (w.store.docOf smallContents () =
        some { manifestHash := 10, files := [(0, 1)] } ∧ (w.store.metaOf ()).pinned = true ∧
          w.store.sizeOnDisk smallContents (.blob 0) = none))
      rfl (Machine.along_of_forall (fun _ _ => trivial) _ _) (by decide +kernel)
    exact ⟨w, hw, of_decide_eq_true hp⟩
  · obtain ⟨w, hw, hp⟩ := Machine.exists_reach_of_exec (storeMachine smallContents smallConfig)
      {} deletesWithCache
      (fun w => decide (w.store.docOf smallContents () =
        some { manifestHash := 11, files := [(1, 1)] } ∧ (w.store.metaOf ()).terminalAt = none ∧
          w.store.sizeOnDisk smallContents (.blob 1) = none))
      rfl (Machine.along_of_forall (fun _ _ => trivial) _ _) (by decide +kernel)
    exact ⟨w, hw, of_decide_eq_true hp⟩

end Store
end LaneBroker
