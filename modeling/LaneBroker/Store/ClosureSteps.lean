/-
# The operations keep the journal closed

Each operation of the store takes a serving process to a serving process, whether it returns
or throws, and leaves a store at rest where the process dies.  What an operation found on disk
before it writes is still there, since the journaling in between leaves the files alone
(`Quiet`).
-/

import LaneBroker.Store.Closure

namespace LaneBroker
namespace Store

open LaneBroker.Basis Fallible

variable {σ ι : Type} [DecidableEq σ] [DecidableEq ι] {C : Contents σ} {cfg : Config}
  {acked : List (Path σ ι)} {s t u : ObjectStore σ ι} {io : Io σ ι}

/-! ### What stays -/

/-- **Nothing comes, and what has been put stays put.** -/
def Grows (s t : ObjectStore σ ι) : Prop :=
  ∀ path, t.has path = true →
    s.has path = true ∧ (HasPut s.journal path → HasPut t.journal path)

/-- **Journaling only**: the files are the same. -/
structure Quiet (s t : ObjectStore σ ι) : Prop where
  files : SameFiles s t
  stray : t.stray = s.stray
  intents : ∀ path ∈ t.intents, path ∈ s.intents
  unjournaled : ∀ sha ∈ t.unjournaled, sha ∈ s.unjournaled
  kept : ∀ path, s.has path = true → HasPut s.journal path → HasPut t.journal path

theorem Grows.refl (s : ObjectStore σ ι) : Grows s s := fun _ h => ⟨h, id⟩

theorem Grows.trans (h : Grows s t) (h' : Grows t u) : Grows s u := by
  intro path hpath
  obtain ⟨ht, htu⟩ := h' path hpath
  obtain ⟨hs, hst⟩ := h path ht
  exact ⟨hs, fun hput => htu (hst hput)⟩

theorem Quiet.refl (s : ObjectStore σ ι) : Quiet s s :=
  ⟨.refl s, rfl, fun _ h => h, fun _ h => h, fun _ _ h => h⟩

theorem SameFiles.has (h : SameFiles s t) (path : Path σ ι) : t.has path = s.has path :=
  has_congr h.blobs h.manifests path

theorem Quiet.trans (h : Quiet s t) (h' : Quiet t u) : Quiet s u :=
  ⟨h.files.trans h'.files, h'.stray.trans h.stray, fun path hp => h.intents path (h'.intents path hp),
    fun sha hsha => h.unjournaled sha (h'.unjournaled sha hsha),
    fun path hpath hput => h'.kept path ((h.files.has path).trans hpath) (h.kept path hpath hput)⟩

/-- The same files, under the same journal. -/
theorem SameFiles.grows (h : SameFiles s t) (hj : t.journal = s.journal) : Grows s t :=
  fun path hpath => ⟨(h.has path).symm.trans hpath, fun hput => hj ▸ hput⟩

/-- A quiet step takes nothing away. -/
theorem Quiet.grows (h : Quiet s t) : Grows s t := fun path hpath =>
  have hs : s.has path = true := (h.files.has path).symm.trans hpath
  ⟨hs, h.kept path hs⟩

/-- A record more is journaling. -/
theorem Follows.kept {f : Fields σ ι} (hf : Follows C s s.journal f) (path : Path σ ι)
    (hpath : s.has path = true) (hput : HasPut s.journal path) :
    HasPut (s.journal ++ [f]) path := by
  refine hput.concat ?_
  rintro rfl
  exact absurd (hpath.symm.trans (hf.gone path rfl)) (by simp)

/-! ### Journaling -/

/-- The record of a blob may be next. -/
theorem follows_put_blob (s : ObjectStore σ ι) (js : List (Fields σ ι)) (sha content : σ)
    (size : Nat) : Follows C s js (.put (.blob sha) content size) := by
  exact ⟨nofun, nofun, nofun⟩

/-- **A pending deletion is journaled.** -/
theorem journalDelete_ends (h : Serving C acked none s) {path : Path σ ι}
    (hmem : path ∈ s.pendingDeletes) :
    Ends io (journalDelete path) s
      (fun _ t => Serving C acked none t ∧ Quiet s t ∧
        t.pendingDeletes = removeFrom s.pendingDeletes path ∧
          objectState t.journal path = some .delete)
      (fun _ t => Serving C acked none t ∧ Grows s t) (Resting C acked) := by
  have hf : Follows C s s.journal (.delete path) :=
    ⟨by intros; contradiction, fun q hq => Fields.delete.inj hq ▸ h.pending path hmem,
      by intros; contradiction⟩
  refine ((h.append_ends io hf (by intros; contradiction)
    fun q hq => Fields.delete.inj hq ▸ hmem).mono (fun _ _ ht => ht)
    (fun _ t ht => ⟨ht.1, ht.2.1.grows ht.2.2.1⟩) fun _ ht => ht).bind fun _ t ht => ?_
  obtain ⟨hbroken, rfl⟩ := ht
  rw [ends_modify]
  have hstate : objectState (s.journal ++ [.delete path]) path = some .delete := by
    rw [objectState_concat]
    simp [Fields.stateOf, Fields.object]
  refine ⟨?_, ⟨⟨rfl, rfl, rfl⟩, rfl, fun _ hp => hp, fun _ hsha => hsha, hf.kept⟩, rfl, hstate⟩
  refine h.appended hf hbroken (by intros; contradiction)
    (h.toRunning.intents_concat fun _ hf => (by cases hf)) (fun q hq => ?_) (fun q hq => ?_)
    (h.nodup.filter _) fun sha hsha => .inl hsha
  · by_cases heq : q = path
    · exact .inr (heq ▸ rfl)
    · exact .inl (List.mem_filter.2 ⟨hq, by simpa using heq⟩)
  · exact h.pending q (List.mem_of_mem_filter hq)

/-- **`flushPendingDeletes` leaves no deletion pending.** -/
theorem flushPendingDeletes_ends (h : Serving C acked none s) :
    Ends io (flushPendingDeletes : Op σ ι Unit) s
      (fun _ t => Serving C acked none t ∧ Quiet s t ∧ t.pendingDeletes = [])
      (fun _ t => Serving C acked none t ∧ Grows s t) (Resting C acked) := by
  suffices hloop : ∀ xs, ∀ t, Serving C acked none t → Quiet s t → t.pendingDeletes = xs →
      Ends io (xs.forM journalDelete) t
        (fun _ u => Serving C acked none u ∧ Quiet s u ∧ u.pendingDeletes = [])
        (fun _ u => Serving C acked none u ∧ Grows s u) (Resting C acked) from
    hloop s.pendingDeletes s h (.refl s) rfl
  intro xs
  induction xs with
  | nil => exact fun t ht hst hpend => ⟨ht, hst, hpend⟩
  | cons path paths ih =>
    intro t ht hst hpend
    have hcons : (path :: paths).forM journalDelete =
        (journalDelete path : Op σ ι Unit) >>= fun _ => paths.forM journalDelete := rfl
    rw [hcons]
    have hmem : path ∈ t.pendingDeletes := hpend ▸ List.mem_cons_self
    refine ((journalDelete_ends ht hmem).mono (fun _ _ hu => hu)
      (fun _ u hu => ⟨hu.1, hst.grows.trans hu.2⟩) fun _ hu => hu).bind fun _ u hu =>
        ih u hu.1 (hst.trans hu.2.1) ?_
    have hnodup := ht.nodup
    rw [hpend, List.nodup_cons] at hnodup
    rw [hu.2.2.1, hpend]
    unfold removeFrom
    rw [List.filter_cons_of_neg (by simp), List.filter_eq_self]
    intro q hq
    rw [decide_eq_true_iff]
    rintro rfl
    exact hnodup.1 hq

/-- **The intent of a deletion is cancelled.** -/
theorem cancelIntent_ends (h : Serving C acked none s) {path : Path σ ι}
    (hput : path ∈ s.intents → HasPut s.journal path) :
    Ends io (cancelIntent path) s
      (fun _ t => Serving C acked none t ∧ Quiet s t ∧ t.pendingDeletes = s.pendingDeletes ∧
        path ∉ t.intents)
      (fun _ => Serving C acked none) (Resting C acked) := by
  unfold cancelIntent
  rw [ends_bind, ends_get]
  split_ifs with hin
  · have hf : Follows C s s.journal (.deleteCancel path) :=
      ⟨nofun, nofun, fun q hq => Fields.deleteCancel.inj hq ▸ hput hin⟩
    refine ((h.append_ends io hf nofun nofun).mono (fun _ _ ht => ht) (fun _ _ ht => ht.1)
      fun _ ht => ht).bind fun _ t ht => ?_
    obtain ⟨hbroken, rfl⟩ := ht
    rw [ends_modify]
    refine ⟨?_, ⟨⟨rfl, rfl, rfl⟩, rfl, fun _ hp => List.mem_of_mem_filter hp, fun _ hsha => hsha,
      hf.kept⟩, rfl, by simp [removeFrom]⟩
    refine h.appended hf hbroken nofun (fun sha hsha => ?_)
      (fun q hq => .inl hq) h.pending h.nodup fun sha hsha => .inl hsha
    refine List.mem_filter.2 ⟨h.toRunning.intents_concat (fun _ hq => by cases hq) sha hsha, ?_⟩
    rw [decide_eq_true_iff]
    rintro rfl
    rw [objectState_concat] at hsha
    simp [Fields.stateOf, Fields.object] at hsha
  · exact ⟨h, .refl s, rfl, hin⟩

/-- **A blob is journaled.** -/
theorem journalBlob_ends {out : Option σ} (h : Serving C acked out s) {sha : σ}
    (hout : out = none ∨ out = some sha) :
    Ends io (journalBlob C sha) s
      (fun _ t => Serving C acked none t ∧ Quiet s t ∧ t.pendingDeletes = s.pendingDeletes ∧
        sha ∉ t.unjournaled ∧ objectState t.journal (.blob sha) = some .put)
      (fun _ t => Serving C acked out t ∧ SameFiles s t ∧ t.pendingDeletes = s.pendingDeletes)
      (Resting C acked) := by
  refine ends_ask_bind ?_ ⟨h, .refl s, rfl⟩ h.toRunning.resting
  generalize (s.sizeOnDisk C (.blob sha)).getD 0 = size
  have hf := follows_put_blob (C := C) s s.journal sha sha size
  refine ((h.append_ends io hf (by intros; contradiction) (by intros; contradiction)).mono
    (fun _ _ ht => ht) (fun _ t ht => ⟨ht.1, ht.2.1, ht.2.2.2⟩) fun _ ht => ht).bind fun _ t ht => ?_
  obtain ⟨hbroken, rfl⟩ := ht
  rw [ends_modify]
  have hput : HasPut (s.journal ++ [.put (.blob sha) sha size]) (.blob sha) :=
    hasPut_concat_put ..
  have hstate : objectState (s.journal ++ [.put (.blob sha) sha size]) (.blob sha) = some .put := by
    rw [objectState_concat]
    simp [Fields.stateOf, Fields.object]
  refine ⟨?_, ⟨⟨rfl, rfl, rfl⟩, rfl, fun _ hp => hp, fun _ hsha => List.mem_of_mem_filter hsha,
    hf.kept⟩, rfl, by simp [removeFrom], hstate⟩
  have hserving : Serving C acked out
      { s with
        journal := s.journal ++ [.put (.blob sha) sha size]
        unjournaled := removeFrom s.unjournaled sha } := by
    refine h.appended hf hbroken (by intros; contradiction)
      (h.toRunning.intents_concat fun _ hf => (by cases hf)) (fun q hq => .inl hq)
      h.pending h.nodup fun sha' hsha' => ?_
    by_cases heq : sha' = sha
    · exact .inr (heq ▸ hput)
    · exact .inl (List.mem_filter.2 ⟨hsha', by simpa using heq⟩)
  refine hserving.toRunning.serving fun sha' hhas => ?_
  rcases hserving.blobs sha' hhas with hsome | hrest
  · rcases hout with rfl | rfl
    · cases hsome
    · exact .inr (.inr (Option.some.inj hsome ▸ hput))
  · exact .inr hrest

/-- **A blob that is needed has been put afterwards.** -/
theorem journalIfNeeded_ends (h : Serving C acked none s) (sha : σ) :
    Ends io (journalIfNeeded C sha) s
      (fun _ t => Serving C acked none t ∧ Quiet s t ∧ t.pendingDeletes = s.pendingDeletes ∧
        sha ∉ t.unjournaled)
      (fun _ => Serving C acked none) (Resting C acked) := by
  unfold journalIfNeeded
  rw [ends_bind, ends_get]
  split_ifs with hin
  · exact (journalBlob_ends h (.inl rfl)).mono (fun _ t ht => ⟨ht.1, ht.2.1, ht.2.2.1, ht.2.2.2.1⟩)
      (fun _ t ht => ht.1) fun _ ht => ht
  · exact ⟨h, .refl s, rfl, hin⟩

/-! ### Uploading -/

/-- A blob that is written is the one that is being put. -/
theorem Serving.writtenBlob (h : Serving C acked none s) {sha : σ}
    (hacked : .blob sha ∉ acked) (hpending : s.pendingDeletes = []) {f : BlobFile σ}
    (hcontent : f.content = sha) :
    Serving C acked (some sha) { s with blobs := s.blobs.write sha f } := by
  have hhas : ∀ path, path ≠ .blob sha →
      ({ s with blobs := s.blobs.write sha f } : ObjectStore σ ι).has path = s.has path := by
    rintro (sha' | job) hne
    · have hne' : sha' ≠ sha := fun heq => hne (heq ▸ rfl)
      simp [ObjectStore.has, Dir.read_write_of_ne _ _ hne']
    · rfl
  have hrun : Running C acked { s with blobs := s.blobs.write sha f } := by
    refine ⟨fun sha' g hg => ?_, h.closed, h.manifests, fun path hp hpath => ?_, h.puts, h.intended,
      h.stray_none, fun g hg => ?_, h.stray_known, h.stray_pending, h.intents, fun path hpath => ?_,
      h.nodup⟩
    · rw [Dir.read_write] at hg
      split_ifs at hg with heq
      · rw [← Option.some.inj hg, hcontent, heq]
      · exact h.intact sha' g hg
    · refine h.acknowledged path hp ?_
      rwa [hhas path fun heq => hacked (heq ▸ hp)] at hpath
    · have hfollows := h.stray_follows g hg
      refine ⟨hfollows.manifest, fun path heq => ?_, hfollows.known⟩
      have hpath := h.stray_pending path (heq ▸ hg)
      rw [hpending] at hpath
      cases hpath
    · rw [hpending] at hpath
      cases hpath
  refine hrun.serving fun sha' hsha' => ?_
  by_cases heq : sha' = sha
  · exact .inl (heq ▸ rfl)
  · rw [hhas _ fun h => heq (Path.blob.inj h)] at hsha'
    rcases h.blobs sha' hsha' with hsome | hrest
    · cases hsome
    · exact .inr hrest

/-- **A new time of upload** is no new file. -/
theorem stamp_ends {out : Option σ} (h : Serving C acked out s) (sha : σ) :
    Ends io (stamp sha) s
      (fun _ t => Serving C acked out t ∧ t.has (.blob sha) = s.has (.blob sha) ∧
        t.pendingDeletes = s.pendingDeletes)
      (fun _ t => t = s) (fun t => t = s) := by
  refine ends_call (fun _ => ?_) (fun _ => rfl) fun _ => rfl
  cases hread : s.blobs.read sha with
  | none => exact ⟨h, rfl, rfl⟩
  | some f =>
    dsimp only
    have hsame : ∀ path, ({ s with
        blobs := s.blobs.write sha { f with mtime := s.now } } : ObjectStore σ ι).has path =
          s.has path := by
      rintro (sha' | job)
      · simp only [ObjectStore.has, Dir.read_write]
        split_ifs with heq
        · rw [heq, hread]
          rfl
        · rfl
      · rfl
    refine ⟨h.of_fewer (h.toRunning.of_fewer (fun sha' g hg => ?_) (fun _ _ hc => hc) rfl rfl rfl
      (fun _ hp => hp) (fun _ hp => hp) (fun path hpath => ?_) h.nodup)
      (fun sha' hsha' => hsame (.blob sha') ▸ hsha') rfl fun _ hsha => hsha, hsame _, rfl⟩
    · have hhas : s.has (.blob sha') = true := by
        rw [← hsame]
        simp [ObjectStore.has, hg]
      refine ⟨?_, hhas⟩
      rw [Dir.read_write] at hg
      split_ifs at hg with heq
      · rw [← Option.some.inj hg, heq]
        exact h.intact sha f hread
      · exact h.intact sha' g hg
    · rw [hsame]
      exact h.pending path hpath

/-- **The blob is journaled, or it is taken back, or kept in mind.** -/
theorem commitBlob_ends (h : Serving C acked (some sha) s) (hpending : s.pendingDeletes = []) :
    Ends io (Fallible.handle (commitBlob C sha) fun e => do
        undoBlob C sha
        Fallible.raise e) s
      (fun _ t => Serving C acked none t ∧ HasPut t.journal (.blob sha))
      (fun _ => Serving C acked none) (Resting C acked) := by
  rw [ends_handle]
  have hcommit : Ends io (commitBlob C sha) s
      (fun _ t => Serving C acked none t ∧ HasPut t.journal (.blob sha))
      (fun _ t => Serving C acked (some sha) t ∧ t.pendingDeletes = []) (Resting C acked) := by
    refine ((stamp_ends h sha).mono (fun _ _ ht => ht) (fun _ t ht => ht ▸ ⟨h, hpending⟩)
      fun t ht => ht ▸ h.toRunning.resting).bind fun _ t ht => ?_
    obtain ⟨ht, -, hpend⟩ := ht
    have hpend : t.pendingDeletes = [] := hpend.trans hpending
    rw [ends_bind]
    refine ends_call (fun _ => ?_) (fun _ => ⟨ht, hpend⟩) fun _ => ht.toRunning.resting
    refine ((journalBlob_ends ht (.inr rfl)).mono (fun _ _ hu => hu)
      (fun _ u hu => ⟨hu.1, hu.2.2.trans hpend⟩) fun _ hu => hu).bind fun _ u hu => ?_
    obtain ⟨hu, -, -, -, hstate⟩ := hu
    rw [ends_modify]
    have hput := hu.puts _ hstate
    refine ⟨?_, hput⟩
    refine hu.withIntents fun sha' hsha' => List.mem_filter.2 ⟨hu.intents sha' hsha', ?_⟩
    rw [decide_eq_true_iff]
    intro heq
    rw [Path.blob.inj heq] at hsha'
    exact absurd (hstate.symm.trans hsha') (by simp)
  refine hcommit.mono (fun _ _ ht => ht) (fun e t ht => ?_) fun _ ht => ht
  obtain ⟨ht, hpend⟩ := ht
  refine Ends.bind (R := fun _ => Serving C acked none) ?_ fun _ _ hu => hu
  unfold undoBlob
  rw [ends_handle, ends_bind]
  refine ends_call (fun _ => ?_) (fun _ => ?_) fun _ => ht.toRunning.resting
  · rw [ends_modify]
    have hrun : Running C acked { t with blobs := t.blobs.unlink sha } := by
      refine ht.toRunning.of_fewer (fun sha' f hf => ?_) (fun _ _ hc => hc) rfl rfl rfl
        (fun _ hp => hp) (fun _ hp => hp) (fun path hpath => ?_) ht.nodup
      · rw [Dir.read_unlink] at hf
        split_ifs at hf
        exact ⟨ht.intact sha' f hf, by simp [ObjectStore.has, hf]⟩
      · rw [show t.pendingDeletes = [] from hpend] at hpath
        cases hpath
    refine Running.serving (hrun.of_eq rfl rfl rfl rfl rfl rfl rfl) fun sha' hsha' => ?_
    have hread : ((t.blobs.unlink sha).read sha').isSome = true := hsha'
    rw [Dir.read_unlink] at hread
    split_ifs at hread with heq
    · cases hread
    · rcases ht.blobs sha' hread with hsome | hrest
      · exact absurd (Option.some.inj hsome).symm heq
      · exact .inr hrest
  · rw [ends_modify]
    refine Running.serving (ht.toRunning.of_eq rfl rfl rfl rfl rfl rfl rfl) fun sha' hsha' => ?_
    have hadd : ∀ {l : List σ} {a : σ}, (∀ b ∈ l, b ∈ addTo l a) ∧ a ∈ addTo l a := by
      intro l a
      unfold addTo
      split_ifs with hin
      · exact ⟨fun _ hb => hb, hin⟩
      · exact ⟨fun _ hb => List.mem_append_left _ hb, by simp⟩
    rcases ht.blobs sha' hsha' with hsome | hin | hput
    · exact .inr (.inl (Option.some.inj hsome ▸ hadd.2))
    · exact .inr (.inl (hadd.1 _ hin))
    · exact .inr (.inr hput)

/-- A process that serves, where the blob has been put if it is there. -/
def ServingPut (C : Contents σ) (acked : List (Path σ ι)) (sha : σ) (s : ObjectStore σ ι) : Prop :=
  Serving C acked none s ∧ (s.has (.blob sha) = true → HasPut s.journal (.blob sha))

/-- A blob that is not waiting for its record has one. -/
theorem ServingPut.of_unjournaled (h : Serving C acked none s) {sha : σ}
    (hsha : sha ∉ s.unjournaled) : ServingPut C acked sha s := by
  refine ⟨h, fun hhas => ?_⟩
  rcases h.blobs sha hhas with hsome | hin | hput
  · cases hsome
  · exact absurd hin hsha
  · exact hput

/-- A new time of upload, and the record if it is missing. -/
theorem stampAndJournal_ends (h : Serving C acked none s) (sha : σ) (io : Io σ ι) :
    Ends io (do
        stamp sha
        journalIfNeeded C sha : Op σ ι Unit) s
      (fun _ t => ServingPut C acked sha t ∧ t.has (.blob sha) = s.has (.blob sha))
      (fun _ => Serving C acked none) (Resting C acked) := by
  refine ((stamp_ends h sha).mono (fun _ _ ht => ht) (fun _ t ht => ht ▸ h)
    fun t ht => ht ▸ h.toRunning.resting).bind fun _ t ht => ?_
  obtain ⟨ht, hhas, -⟩ := ht
  refine (journalIfNeeded_ends ht sha).imp fun _ u hu => ?_
  obtain ⟨hu, hquiet, -, hsha⟩ := hu
  exact ⟨.of_unjournaled hu hsha, (hquiet.files.has _).trans hhas⟩

/-- **A duplicate is acknowledged** behind its record in the journal. -/
theorem acknowledgeDuplicate_ends (h : Serving C acked none s) (sha body : σ) :
    Ends io (acknowledgeDuplicate C sha body : Op σ ι Bool) s
      (fun _ => ServingPut C acked sha) (fun _ => Serving C acked none) (Resting C acked) := by
  unfold acknowledgeDuplicate
  rw [ends_bind]
  refine ends_call (fun _ => ?_) (fun _ => h) fun _ => h.toRunning.resting
  change Ends io _ s _ _ _
  split_ifs
  · exact h
  · refine ends_ask_bind ?_ h h.toRunning.resting
    split_ifs with hgone
    · exact h
    · have hhas : s.has (.blob sha) = true := by
        cases hread : s.blobs.read sha with
        | none => exact absurd (by simp [ObjectStore.sizeOnDisk, hread]) hgone
        | some f => simp [ObjectStore.has, hread]
      have hfirst := stampAndJournal_ends h sha io
      rw [ends_bind] at hfirst ⊢
      refine hfirst.imp fun _ t ht => ht.bind fun _ u hu => ?_
      obtain ⟨⟨hu, hput⟩, hsame⟩ := hu
      have hput := hput (hsame.trans hhas)
      refine (cancelIntent_ends hu fun _ => hput).bind fun _ v hv => ?_
      exact ⟨hv.1, fun _ => hv.2.1.kept _ (hsame.trans hhas) hput⟩

/-- **An upload**: the rename, and then its record. -/
theorem storeBlob_ends (h : Serving C acked none s) (sha body : σ) (declaredSize : Nat)
    (hacked : .blob sha ∈ acked → s.has (.blob sha) = true) :
    Ends io (storeBlob C cfg sha body declaredSize) s
      (fun _ => ServingPut C acked sha) (fun _ => Serving C acked none) (Resting C acked) := by
  unfold storeBlob
  rw [ends_bind]
  refine ends_call (fun _ => ?_) (fun _ => h) fun _ => h.toRunning.resting
  change Ends io _ s _ _ _
  dsimp only
  split_ifs with hlarge hbody
  · exact h
  · exact h
  · have hbody : body = sha := not_not.1 hbody
    subst hbody
    refine ((intactBlob_ends (h.intact body) io).mono (fun _ _ ht => ht) (fun _ t ht => ht ▸ h)
      fun t ht => ht ▸ h.toRunning.resting).bind fun r t ht => ?_
    obtain ⟨rfl, hnone⟩ := ht
    cases r with
    | true =>
      have hfirst := stampAndJournal_ends h body io
      rw [if_pos rfl]
      rw [ends_bind] at hfirst ⊢
      exact hfirst.imp fun _ u hu => hu.bind fun _ v hv => hv.1
    | false =>
      have hnone := hnone rfl
      rw [if_neg Bool.false_ne_true]
      refine ends_ask_bind ?_ h h.toRunning.resting
      rw [ends_bind, ends_get]
      split_ifs
      · exact h
      · refine ((flushPendingDeletes_ends h).mono (fun _ _ hu => hu) (fun _ _ hu => hu.1)
          fun _ hu => hu).bind fun _ u hu => ?_
        obtain ⟨hu, hquiet, hpending⟩ := hu
        have hfresh : .blob body ∉ acked := by
          intro hin
          have hhas := hacked hin
          simp [ObjectStore.has, hnone] at hhas
        unfold renameBlob
        rw [ends_bind, ends_bind]
        refine ends_call (fun _ => ?_) (fun _ => hu) fun _ => hu.toRunning.resting
        rw [ends_modify, ends_bind]
        have hput : Serving C acked (some body)
            { u with
              blobs := u.blobs.write body { content := body, mtime := u.now }
              bytes := u.bytes + (C.sizeOf body - (t.sizeOnDisk C (.blob body)).getD 0) } :=
          (hu.writtenBlob hfresh hpending (f := ⟨body, u.now⟩) rfl).of_eq rfl rfl rfl rfl rfl rfl rfl rfl
        exact (commitBlob_ends hput hpending).imp fun _ v hv => ⟨hv.1, fun _ => hv.2⟩

/-- **An upload.** -/
theorem putBlob_ends (h : Serving C acked none s) (sha body : σ) (declaredSize : Nat)
    (hacked : .blob sha ∈ acked → s.has (.blob sha) = true) :
    Ends io (putBlob C cfg sha body declaredSize) s
      (fun _ => ServingPut C acked sha) (fun _ => Serving C acked none) (Resting C acked) := by
  have hstart := keeps_intactBlob (P := fun t => t = s) C sha declaredSize io s rfl
  unfold putBlob
  split_ifs
  · exact h
  · refine (hstart.mono (fun _ _ ht => ht) (fun _ t ht => ht ▸ h)
      fun t ht => ht ▸ h.toRunning.resting).bind fun r t ht => ?_
    subst ht
    cases r with
    | true => exact acknowledgeDuplicate_ends h sha body
    | false =>
      rw [if_neg Bool.false_ne_true]
      unfold reserve
      rw [ends_bind, ends_bind, ends_get]
      split_ifs
      · exact h
      · rw [ends_modify, ends_ensuring]
        have hreserved : Serving C acked none { t with reserved := t.reserved + declaredSize } :=
          h.of_eq rfl rfl rfl rfl rfl rfl rfl rfl
        have hrelease : ∀ {u : ObjectStore σ ι}, Serving C acked none u →
            Serving C acked none { u with reserved := u.reserved - declaredSize } :=
          fun hu => hu.of_eq rfl rfl rfl rfl rfl rfl rfl rfl
        refine (storeBlob_ends hreserved sha body declaredSize hacked).mono (fun r u hu => ?_)
          (fun e u hu => ?_) fun _ hu => hu
        · rw [ends_bind, ends_modify]
          exact ends_call (fun _ => ⟨hrelease hu.1, hu.2⟩) (fun _ => hrelease hu.1)
            fun _ => (hrelease hu.1).toRunning.resting
        · rw [ends_bind, ends_modify]
          exact ends_call (fun _ => hrelease hu) (fun _ => hrelease hu)
            fun _ => (hrelease hu).toRunning.resting

/-! ### Deleting -/

/-- The disk without an object. -/
def unlinked (path : Path σ ι) (s : ObjectStore σ ι) : ObjectStore σ ι :=
  match path with
  | .blob sha => { s with blobs := s.blobs.unlink sha }
  | .manifest job => { s with manifests := s.manifests.unlink job }

theorem unlinkObject_eq (path : Path σ ι) :
    unlinkObject path = Fallible.call (.unlink path) .io (unlinked path) := rfl

theorem unlinked_with (path : Path σ ι) (s : ObjectStore σ ι) (js : List (Fields σ ι))
    (ints : List (Path σ ι)) :
    unlinked path { s with journal := js, intents := ints } =
      { unlinked path s with journal := js, intents := ints } := by
  cases path <;> rfl

/-- What is there after an unlink was there before. -/
theorem has_unlinked {path q : Path σ ι} (h : (unlinked path s).has q = true) :
    q ≠ path ∧ s.has q = true := by
  cases path with
  | blob sha =>
    cases q with
    | blob sha' =>
      have hread : ((s.blobs.unlink sha).read sha').isSome = true := h
      rw [Dir.read_unlink] at hread
      split_ifs at hread with heq
      · cases hread
      · exact ⟨fun h => heq (Path.blob.inj h), hread⟩
    | manifest job => exact ⟨fun heq => (by cases heq), h⟩
  | manifest job =>
    cases q with
    | blob sha' => exact ⟨fun heq => (by cases heq), h⟩
    | manifest job' =>
      have hread : ((s.manifests.unlink job).read job').isSome = true := h
      rw [Dir.read_unlink] at hread
      split_ifs at hread with heq
      · cases hread
      · exact ⟨fun h => heq (Path.manifest.inj h), hread⟩

theorem unlinked_gone (path : Path σ ι) (s : ObjectStore σ ι) :
    (unlinked path s).has path = false := by
  rw [Bool.eq_false_iff]
  exact fun h => (has_unlinked h).1 rfl

/-- The store without an object runs on. -/
theorem Running.unlinked (h : Running C acked s) (path : Path σ ι) :
    Running C acked (unlinked path s) := by
  cases path with
  | blob sha =>
    refine h.of_fewer (fun sha' f hf => ?_) (fun _ _ hc => hc) rfl rfl rfl (fun _ hp => hp)
      (fun _ hp => hp) (fun q hq => ?_) h.nodup
    · have hread : (s.blobs.unlink sha).read sha' = some f := hf
      rw [Dir.read_unlink] at hread
      split_ifs at hread
      exact ⟨h.intact sha' f hread, by simp [ObjectStore.has, hread]⟩
    · rw [Bool.eq_false_iff]
      intro hhas
      exact absurd ((has_unlinked hhas).2.symm.trans (h.pending q hq)) (by simp)
  | manifest job =>
    refine h.of_fewer (fun sha f hf => ⟨h.intact sha f hf, ?_⟩) (fun job' c hc => ?_) rfl rfl rfl
      (fun _ hp => hp) (fun _ hp => hp) (fun q hq => ?_) h.nodup
    · have hread : s.blobs.read sha = some f := hf
      simp [ObjectStore.has, hread]
    · have hread : (s.manifests.unlink job).read job' = some c := hc
      rw [Dir.read_unlink] at hread
      split_ifs at hread
      exact hread
    · rw [Bool.eq_false_iff]
      intro hhas
      exact absurd ((has_unlinked hhas).2.symm.trans (h.pending q hq)) (by simp)

omit [DecidableEq σ] [DecidableEq ι] in
/-- **The deletion of an object is carried out, or not begun.** -/
def Whole (io : Io σ ι) (path : Path σ ι) : Prop :=
  io (.append (.deleteIntent path)) = .fails ∨
    (io (.append (.deleteIntent path)) = .ok ∧ io (.unlink path) = .ok ∧
      (io (.syncDirectory path) = .ok ∨ io (.syncDirectory path) = .dies))

/-- The process between the unlink of an object and the record of its deletion. -/
theorem Serving.deleted (h : Serving C acked none s) {path : Path σ ι} (hbroken : s.broken = false)
    (hpending : s.pendingDeletes = []) {ints : List (Path σ ι)} {bytes : Int}
    (hints : ∀ q, q ∈ s.intents ∨ q = path → q ∈ ints) :
    Serving C acked none
      { unlinked path s with
        journal := s.journal ++ [.deleteIntent path]
        intents := ints
        bytes := bytes
        pendingDeletes := [path] } := by
  have hfewer : Serving C acked none (unlinked path s) :=
    h.of_fewer (h.toRunning.unlinked path) (fun _ hsha => (has_unlinked hsha).2)
      (by cases path <;> rfl) fun _ hsha => by cases path <;> exact hsha
  have hjournal : (unlinked path s).journal = s.journal := by cases path <;> rfl
  have hf : Follows C (unlinked path s) (unlinked path s).journal (.deleteIntent path) :=
    ⟨nofun, nofun, nofun⟩
  have hpend : (unlinked path s).pendingDeletes = [] := by cases path <;> exact hpending
  have hrest : Serving C acked none
      { unlinked path s with
        journal := (unlinked path s).journal ++ [.deleteIntent path]
        intents := ints
        pendingDeletes := [path]
        unjournaled := (unlinked path s).unjournaled } := by
    refine hfewer.appended hf (by cases path <;> exact hbroken) (fun q hq => ?_) (fun sha hsha => ?_)
      (fun q hq => ?_) (fun q hq => ?_) (List.nodup_singleton _) fun _ hsha => .inl hsha
    · exact .inr (List.mem_singleton.2 (Fields.deleteIntent.inj hq).symm)
    · refine hints _ ?_
      rcases objectState_concat_cases (unlinked path s).journal (.deleteIntent path) (.blob sha) with
        heq | ⟨st, hst, -⟩
      · rw [hjournal] at heq hsha
        exact .inl (h.intents sha (heq ▸ hsha))
      · exact .inr (congrArg Prod.fst (Option.some.inj hst)).symm
    · rw [hpend] at hq
      cases hq
    · rw [List.mem_singleton.1 hq]
      exact unlinked_gone path s
  rw [hjournal] at hrest
  exact hrest.of_eq rfl rfl rfl rfl rfl rfl rfl rfl

/-- What a deletion does behind the unlink. -/
theorem finishDelete_ends (h : Serving C acked none t) (hgrows : Grows s t) {path : Path σ ι}
    (hmem : path ∈ t.pendingDeletes) :
    Ends io (do
        dropJob path
        journalDelete path
        Fallible.modify fun s => { s with intents := removeFrom s.intents path } : Op σ ι Unit) t
      (fun _ u => Serving C acked none u ∧ Grows s u)
      (fun _ u => Serving C acked none u ∧ Grows s u) (Resting C acked) := by
  have hdrop : Ends io (dropJob path : Op σ ι Unit) t
      (fun _ u => (Serving C acked none u ∧ Grows s u) ∧ path ∈ u.pendingDeletes)
      (fun _ u => Serving C acked none u ∧ Grows s u) (Resting C acked) := by
    cases path with
    | blob sha => exact ⟨⟨h, hgrows⟩, hmem⟩
    | manifest job =>
      unfold dropJob removeMeta
      rw [ends_bind]
      refine ends_call (fun _ => ?_) (fun _ => ⟨h, hgrows⟩) fun _ => h.toRunning.resting
      have ht : Serving C acked none { t with metas := t.metas.unlink job } :=
        h.of_eq rfl rfl rfl rfl rfl rfl rfl rfl
      have hgrows' : Grows s { t with metas := t.metas.unlink job } := fun q hq =>
        hgrows q ((has_congr rfl rfl q).symm.trans hq)
      rw [ends_bind]
      refine ends_call (fun _ => ?_) (fun _ => ⟨ht, hgrows'⟩) fun _ => ht.toRunning.resting
      rw [ends_modify]
      exact ⟨⟨ht.of_eq rfl rfl rfl rfl rfl rfl rfl rfl,
        fun q hq => hgrows q ((has_congr rfl rfl q).symm.trans hq)⟩, hmem⟩
  refine hdrop.bind fun _ u hu => ?_
  obtain ⟨⟨hu, hgrows⟩, hmem⟩ := hu
  refine ((journalDelete_ends hu hmem).mono (fun _ _ hv => hv)
    (fun _ v hv => ⟨hv.1, hgrows.trans hv.2⟩) fun _ hv => hv).bind fun _ v hv => ?_
  obtain ⟨hv, hquiet, -, hstate⟩ := hv
  rw [ends_modify]
  refine ⟨hv.withIntents fun sha hsha => List.mem_filter.2 ⟨hv.intents sha hsha, ?_⟩,
    fun q hq => hgrows.trans hquiet.grows q ((has_congr rfl rfl q).symm.trans hq)⟩
  rw [decide_eq_true_iff]
  intro heq
  rw [heq] at hsha
  exact absurd (hstate.symm.trans hsha) (by simp)

/-- **The three steps of a deletion.**  What has not been put is deleted at once, or not at all. -/
theorem removeObject_closed (h : Serving C acked none s) (hpending : s.pendingDeletes = [])
    {path : Path σ ι} (size : Nat) (hwhole : HasPut s.journal path ∨ Whole io path) :
    Ends io (removeObject path size) s
      (fun _ t => Serving C acked none t ∧ Grows s t)
      (fun _ t => Serving C acked none t ∧ Grows s t) (Resting C acked) := by
  have hf : Follows C s s.journal (.deleteIntent path) := ⟨nofun, nofun, nofun⟩
  unfold removeObject
  -- the record of the intent
  refine Ends.bind (R := fun _ t => s.broken = false ∧
      t = { s with journal := s.journal ++ [.deleteIntent path] } ∧
        (HasPut s.journal path ∨ (io (.unlink path) = .ok ∧
          (io (.syncDirectory path) = .ok ∨ io (.syncDirectory path) = .dies)))) ?_ fun _ t ht => ?_
  · rcases hwhole with hput | hwhole
    · exact (h.append_ends io hf (fun q hq => Fields.deleteIntent.inj hq ▸ hput) nofun).mono
        (fun _ _ ht => ⟨ht.1, ht.2, .inl hput⟩) (fun _ t ht => ⟨ht.1, ht.2.1.grows ht.2.2.1⟩)
        fun _ ht => ht
    · refine (append_ends s io _).mono (fun _ t ht => ⟨ht.2.1, ht.2.2, ?_⟩) (fun _ t ht => ?_)
        fun t ht => ?_
      · rcases hwhole with hfails | ⟨-, hwhole⟩
        · exact absurd (hfails.symm.trans ht.1) nofun
        · exact .inr hwhole
      · rcases ht with rfl | ⟨hlate, -⟩
        · exact ⟨h, .refl t⟩
        · rcases hwhole with hfails | ⟨hok, -⟩
          · exact absurd (hfails.symm.trans hlate) nofun
          · exact absurd (hok.symm.trans hlate) nofun
      · rcases hwhole with hfails | ⟨hok, -⟩
        · exact absurd (hfails.symm.trans ht.1) nofun
        · exact absurd (hok.symm.trans ht.1) nofun
  · obtain ⟨hbroken, rfl, hcase⟩ := ht
    have hkept : ∀ q, HasPut s.journal q → HasPut (s.journal ++ [.deleteIntent path]) q :=
      fun q hput => hput.concat nofun
    have hints : ∀ q, q ∈ s.intents ∨ q = path → q ∈ addTo s.intents path := by
      intro q hq
      unfold addTo
      split_ifs with hin
      · exact hq.elim id fun heq => heq ▸ hin
      · exact List.mem_append.2 (hq.imp_right List.mem_singleton.2)
    rw [ends_bind, ends_modify]
    have hannounced : HasPut s.journal path → Serving C acked none
        { s with
          journal := s.journal ++ [.deleteIntent path]
          intents := addTo s.intents path } := by
      intro hput
      refine h.appended hf hbroken (fun q hq => .inl (Fields.deleteIntent.inj hq ▸ hput))
        (fun sha hsha => ?_) (fun q hq => .inl hq) h.pending h.nodup fun _ hsha => .inl hsha
      refine hints _ ?_
      rcases objectState_concat_cases s.journal (.deleteIntent path) (.blob sha) with
        heq | ⟨st, hst, -⟩
      · exact .inl (h.intents sha (heq ▸ hsha))
      · exact .inr (congrArg Prod.fst (Option.some.inj hst)).symm
    have hv : ∀ q, ({ s with
        journal := s.journal ++ [.deleteIntent path]
        intents := addTo s.intents path } : ObjectStore σ ι).has q = s.has q :=
      has_congr rfl rfl
    rw [unlinkObject_eq, ends_bind]
    refine ends_call (fun _ => ?_) (fun hio => ?_) fun hio => ?_
    · rw [unlinked_with path s]
      have hgrows : ∀ u : ObjectStore σ ι, u.journal = s.journal ++ [.deleteIntent path] →
          (∀ q, u.has q = (unlinked path s).has q) → Grows s u := by
        intro u hj hu q hq
        rw [hu] at hq
        exact ⟨(has_unlinked hq).2, fun hput => hj ▸ hkept q hput⟩
      rw [ends_bind]
      refine ends_call (fun _ => ?_) (fun hio => ?_) fun hio => ?_
      · rw [ends_bind, ends_modify]
        have hpend : addTo (unlinked path s).pendingDeletes path = [path] := by
          rw [show (unlinked path s).pendingDeletes = [] by cases path <;> exact hpending]
          rfl
        have hy : Serving C acked none
            { unlinked path s with
              journal := s.journal ++ [.deleteIntent path]
              intents := addTo s.intents path
              bytes := (unlinked path s).bytes - size
              pendingDeletes := addTo (unlinked path s).pendingDeletes path } := by
          rw [hpend]
          exact h.deleted hbroken hpending hints
        refine finishDelete_ends hy (hgrows _ rfl fun q => has_congr rfl rfl q) ?_
        change path ∈ addTo (unlinked path s).pendingDeletes path
        rw [hpend]
        exact List.mem_singleton_self path
      · rcases hcase with hput | ⟨-, hsync⟩
        · refine ⟨?_, hgrows _ rfl fun q => has_congr rfl rfl q⟩
          have hx := (hannounced hput).of_fewer ((hannounced hput).toRunning.unlinked path)
            (fun _ hsha => (has_unlinked hsha).2) (by cases path <;> rfl)
            fun _ hsha => by cases path <;> exact hsha
          rwa [unlinked_with path s] at hx
        · exact absurd hio (by rcases hsync with hok | hok <;> simp [hok])
      · have hgone := h.toRunning.unlinked path
        have hf' : Follows C (unlinked path s) s.journal (.deleteIntent path) := ⟨nofun, nofun, nofun⟩
        have hj : (unlinked path s).journal = s.journal := by cases path <;> rfl
        have hfits : Fits C acked (unlinked path s) (s.journal ++ [.deleteIntent path]) := by
          refine (hj ▸ hgone.fits).concat hf' (fun q hq => .inr ?_) fun job content hread => .inl ?_
          · rw [← Fields.deleteIntent.inj hq]
            exact unlinked_gone path s
          · exact (hj ▸ hgone.manifests job content hread).concat nofun
        refine ⟨hgone.intact, hfits.of_eq rfl rfl, fun g hg => ?_⟩
        have hstray : (unlinked path s).stray = none := by
          cases path <;> exact h.stray_none hbroken
        exact absurd (hstray.symm.trans hg) (by simp)
    · rcases hcase with hput | ⟨hok, -⟩
      · exact ⟨hannounced hput, fun q hq => ⟨(hv q).symm.trans hq, hkept q⟩⟩
      · exact (hio.elim (fun h => absurd (hok.symm.trans h) nofun)
          fun h => absurd (hok.symm.trans h) nofun)
    · rcases hcase with hput | ⟨hok, -⟩
      · exact (hannounced hput).toRunning.resting
      · exact absurd (hok.symm.trans hio) nofun

/-- Another cache. -/
theorem Serving.cached (h : Serving C acked none s) (cache : List (ι × List σ)) :
    Serving C acked none { s with jobBlobCache := cache } :=
  h.of_eq rfl rfl rfl rfl rfl rfl rfl rfl

/-- **A deletion.** -/
theorem deleteObject_closed (h : Serving C acked none s) {path : Path σ ι}
    (hwhole : s.has path = true → HasPut s.journal path ∨ Whole io path) :
    Ends io (deleteObject C path) s
      (fun _ t => Serving C acked none t ∧ Grows s t)
      (fun _ t => Serving C acked none t ∧ Grows s t) (Resting C acked) := by
  have hrefuse : Ends io (refuseProtected C path) s
      (fun _ t => Serving C acked none t ∧ SameFiles s t ∧ t.journal = s.journal)
      (fun _ t => Serving C acked none t ∧ Grows s t) (Resting C acked) := by
    cases path with
    | manifest job => exact ⟨h, .refl s, rfl⟩
    | blob sha =>
      have hread : Lasts io (fun t => Serving C acked none t ∧ SameFiles s t ∧ t.journal = s.journal)
          (Resting C acked) (isProtectedBlob C sha) :=
        lasts_isProtectedBlob (fun _ ht => ht.1.toRunning.resting)
          (fun t cache ht => ⟨ht.1.cached cache, ⟨ht.2.1.blobs, ht.2.1.manifests, ht.2.1.metas⟩,
            ht.2.2⟩) sha
      refine ((hread s ⟨h, .refl s, rfl⟩).mono (fun _ _ ht => ht)
        (fun _ t ht => ⟨ht.1, ht.2.1.grows ht.2.2⟩) fun _ ht => ht).bind fun r t ht => ?_
      cases r with
      | true => exact ⟨ht.1, ht.2.1.grows ht.2.2⟩
      | false => exact ht
  unfold deleteObject
  refine hrefuse.bind fun _ t ht => ?_
  obtain ⟨ht, hfiles, hjournal⟩ := ht
  have hgrows := hfiles.grows hjournal
  rw [ends_bind, ends_get]
  split_ifs
  · exact ⟨ht, hgrows⟩
  · refine ((flushPendingDeletes_ends ht).mono (fun _ _ hu => hu)
      (fun _ u hu => ⟨hu.1, hgrows.trans hu.2⟩) fun _ hu => hu).bind fun _ u hu => ?_
    obtain ⟨hu, hquiet, hpending⟩ := hu
    have hgrows := hgrows.trans hquiet.grows
    refine ends_ask_bind ?_ ⟨hu, hgrows⟩ hu.toRunning.resting
    cases hsize : u.sizeOnDisk C path with
    | none => exact ⟨hu, hgrows⟩
    | some size =>
      have hhas : u.has path = true := by
        cases path with
        | blob sha =>
          obtain ⟨f, hf, -⟩ := Option.map_eq_some_iff.1 hsize
          simp [ObjectStore.has, hf]
        | manifest job =>
          obtain ⟨c, hc, -⟩ := Option.map_eq_some_iff.1 hsize
          simp [ObjectStore.has, hc]
      obtain ⟨hhas, hput⟩ := hgrows path hhas
      refine ((removeObject_closed hu hpending size ((hwhole hhas).imp_left hput)).mono
        (fun _ v hv => ⟨hv.1, hgrows.trans hv.2⟩) (fun _ v hv => ⟨hv.1, hgrows.trans hv.2⟩)
        fun _ hv => hv).bind fun _ v hv => hv

/-- The blobs on disk have been put, except for these. -/
def PutBut (bad : σ → Prop) (s : ObjectStore σ ι) : Prop :=
  ∀ sha, s.has (.blob sha) = true → HasPut s.journal (.blob sha) ∨ bad sha

/-- More files keep what the journal has put. -/
theorem PutBut.of_grows {bad : σ → Prop} (h : PutBut bad s) (hgrows : Grows s t) : PutBut bad t := by
  intro sha hsha
  obtain ⟨hs, hput⟩ := hgrows _ hsha
  exact (h sha hs).imp_left hput

/-- **A sweep**, that deletes at once what has not been put. -/
theorem sweep_ends (h : Serving C acked none s) (times : RetentionTimes) (now : Int)
    {io : SweepPass σ ι × Site σ ι → Answer}
    (hwhole : ∀ sha, s.has (.blob sha) = true → ¬HasPut s.journal (.blob sha) →
      ∀ pass, Whole (fun c => io (pass, c)) (.blob sha)) :
    Ends io (sweep C cfg times now) s (fun _ => Serving C acked none) (fun _ => Serving C acked none)
      (Resting C acked) := by
  let P := fun t => Serving C acked none t ∧
    PutBut (fun sha => ∀ pass, Whole (fun c => io (pass, c)) (.blob sha)) t
  have hsweep : Lasts io P (Resting C acked) (sweep C cfg times now) := by
    refine lasts_sweep (fun _ ht => ht.1.toRunning.resting)
      (fun pass job => lasts_jobBlobs (fun _ ht => ht.1.toRunning.resting)
        (fun t cache ht => ⟨ht.1.cached cache, ht.2⟩) job) (fun pass path t ht => ?_) cfg times now
    refine (deleteObject_closed ht.1 fun hhas => ?_).mono
      (fun _ u hu => ⟨hu.1, ht.2.of_grows hu.2⟩) (fun _ u hu => ⟨hu.1, ht.2.of_grows hu.2⟩)
      fun _ hu => hu
    cases path with
    | blob sha => exact (ht.2 sha hhas).imp_right fun hbad => hbad pass
    | manifest job =>
      obtain ⟨c, hc⟩ := Option.isSome_iff_exists.1 hhas
      exact .inl (ht.1.manifests job c hc)
  refine (hsweep s ⟨h, fun sha hsha => ?_⟩).mono (fun _ _ ht => ht.1) (fun _ _ ht => ht.1)
    fun _ ht => ht
  by_cases hput : HasPut s.journal (.blob sha)
  · exact .inl hput
  · exact .inr (hwhole sha hsha hput)

/-! ### Marking -/

/-- **A pin or a terminal mark.** -/
theorem setJobState_closed (h : Serving C acked none s) (job : ι) (field : StateField) :
    Ends io (setJobState C job field) s (fun _ => Serving C acked none)
      (fun _ => Serving C acked none) (Resting C acked) := by
  refine ((readManifest_ends s io job).mono (fun _ _ ht => ht) (fun _ t ht => ht ▸ h)
    fun t ht => ht ▸ h.toRunning.resting).bind fun r t ht => ?_
  obtain ⟨rfl, -, -⟩ := ht
  cases r with
  | none => exact h
  | some d =>
    refine ((flushPendingDeletes_ends h).mono (fun _ _ hu => hu) (fun _ _ hu => hu.1)
      fun _ hu => hu).bind fun _ u hu => ?_
    obtain ⟨hu, -, -⟩ := hu
    refine ends_ask_bind ?_ hu hu.toRunning.resting
    generalize (u.metas.read job).getD {} = before
    dsimp only
    split_ifs
    · exact hu
    · have hwrite : ∀ {v : ObjectStore σ ι} {m : Meta}, Serving C acked none v →
          Serving C acked none { v with metas := v.metas.write job m } :=
        fun hv => hv.of_eq rfl rfl rfl rfl rfl rfl rfl rfl
      unfold writeMeta
      rw [ends_bind]
      refine ends_write (fun _ => ?_) (fun _ => hu) (fun _ => hwrite hu)
        fun _ => hu.toRunning.resting
      rw [ends_bind, ends_handle]
      have hmarked : Serving C acked none { u with metas := u.metas.write job (field.set before) } :=
        hwrite hu
      generalize { u with metas := u.metas.write job (field.set before) } = v at hmarked
      have hf : Follows C v v.journal (field.record job) := by
        cases field <;> exact ⟨nofun, nofun, nofun⟩
      refine (hmarked.append_ends io hf (by cases field <;> nofun) (by cases field <;> nofun)).mono
        (fun _ x hx => ?_) (fun e x hx => ?_) fun _ hx => hx
      · obtain ⟨hbroken, rfl⟩ := hx
        exact hmarked.appended hf hbroken (by cases field <;> nofun)
          (hmarked.toRunning.intents_concat (by cases field <;> nofun)) (fun q hq => .inl hq)
          hmarked.pending hmarked.nodup fun _ hsha => .inl hsha
      · rw [ends_bind]
        exact ends_write (fun _ => hwrite hx.1) (fun _ => hx.1) (fun _ => hwrite hx.1)
          fun _ => hx.1.toRunning.resting

/-! ### Registering -/

/-- A manifest that is written and has been put. -/
theorem Serving.writtenManifest (h : Serving C acked none s) {job : ι} {content : σ}
    (hput : HasPut s.journal (.manifest job)) (hpending : s.pendingDeletes = []) :
    Serving C acked none { s with manifests := s.manifests.write job content } := by
  refine Running.serving ?_ h.blobs
  refine ⟨h.intact, h.closed, fun job' c hc => ?_, fun path hp hpath => ?_, h.puts, h.intended,
    h.stray_none, fun f hf => ?_, h.stray_known, h.stray_pending, h.intents, fun path hpath => ?_,
    h.nodup⟩
  · have hread : (s.manifests.write job content).read job' = some c := hc
    rw [Dir.read_write] at hread
    split_ifs at hread with heq
    · rw [heq]
      exact hput
    · exact h.manifests job' c hread
  · by_cases heq : path = .manifest job
    · rw [heq]
      exact hput
    · refine h.acknowledged path hp ?_
      cases path with
      | blob sha => exact hpath
      | manifest job' =>
        have hread : ((s.manifests.write job content).read job').isSome = true := hpath
        rwa [Dir.read_write_of_ne _ _ fun hjob => heq (congrArg Path.manifest hjob)] at hread
  · have hfollows := h.stray_follows f hf
    refine ⟨hfollows.manifest, fun path heq => ?_, hfollows.known⟩
    have hpath := h.stray_pending path (heq ▸ hf)
    rw [hpending] at hpath
    cases hpath
  · rw [show s.pendingDeletes = [] from hpending] at hpath
    cases hpath

/-- **A manifest is on disk and waits for its record**: without it the process serves, and its blobs
have been put. -/
structure Registering (C : Contents σ) (acked : List (Path σ ι)) (job : ι) (content : σ)
    (s : ObjectStore σ ι) : Prop where
  without : ∃ manifests, s.manifests = manifests.write job content ∧
    manifests.read job = none ∧ Serving C acked none { s with manifests := manifests }
  blobs : BlobsPut C s.journal content
  fresh : .manifest job ∉ acked
  pending : s.pendingDeletes = []

/-- No deletion of a blob of the manifest is astray. -/
def Untouched (C : Contents σ) (content : σ) (s : ObjectStore σ ι) : Prop :=
  ∀ d, C.parseManifestDoc content = some d → ∀ sha ∈ d.blobs,
    s.stray ≠ some (.deleteIntent (.blob sha))

section Registering

variable {job : ι} {content : σ}

/-- It is about the files, the journal and what is pending. -/
theorem Registering.of_eq (h : Registering C acked job content s) (hb : t.blobs = s.blobs)
    (hm : t.manifests = s.manifests) (hj : t.journal = s.journal) (hs : t.stray = s.stray)
    (hbr : t.broken = s.broken) (hi : t.intents = s.intents)
    (hp : t.pendingDeletes = s.pendingDeletes) (hu : t.unjournaled = s.unjournaled) :
    Registering C acked job content t := by
  obtain ⟨⟨manifests, hwrite, hnone, hserving⟩, hblobs, hfresh, hpending⟩ := h
  exact ⟨⟨manifests, hm.trans hwrite, hnone, hserving.of_eq hb rfl hj hs hbr hi hp hu⟩, hj ▸ hblobs,
    hfresh, hp.trans hpending⟩

theorem Registering.fits (h : Registering C acked job content s) : Fits C acked s s.journal := by
  obtain ⟨⟨manifests, hwrite, hnone, hserving⟩, hblobs, hfresh, hpending⟩ := h
  have hfits := hserving.toRunning.fits
  have hread : ∀ job', job' ≠ job → s.manifests.read job' = manifests.read job' := by
    intro job' hne
    rw [hwrite, Dir.read_write_of_ne _ _ hne]
  have hhas : ∀ path, path ≠ .manifest job → s.has path = true →
      ({ s with manifests := manifests } : ObjectStore σ ι).has path = true := by
    rintro (sha | job') hne hpath
    · exact hpath
    · simp only [ObjectStore.has] at hpath ⊢
      rwa [← hread job' fun heq => hne (heq ▸ rfl)]
  refine ⟨hfits.closed, fun job' c hc => ?_, fun path hp hpath => ?_, hfits.puts,
    fun path hpath hint => ?_⟩
  · by_cases heq : job' = job
    · subst heq
      rw [hwrite, Dir.read_write_self] at hc
      exact .inr (Option.some.inj hc ▸ hblobs)
    · exact .inl (hserving.manifests job' c (hread job' heq ▸ hc))
  · exact hfits.acknowledged path hp (hhas path (fun heq => hfresh (heq ▸ hp)) hpath)
  · rcases hserving.intended path hint with hput | hpend
    · exact hput
    · rw [show s.pendingDeletes = [] from hpending] at hpend
      cases hpend

/-- A record more, while the manifest waits. -/
theorem Registering.fits_concat (h : Registering C acked job content s) {f : Fields σ ι}
    (hmanifest : ∀ job content size, f = .put (.manifest job) content size →
      BlobsPut C s.journal content)
    (hdelete : ∀ path, f ≠ .delete path) (hcancel : ∀ path, f = .deleteCancel path →
      HasPut s.journal path)
    (hknown : ∀ path, f = .deleteIntent path → HasPut s.journal path)
    (hblobs : ∀ d, C.parseManifestDoc content = some d → ∀ sha ∈ d.blobs,
      f ≠ .deleteIntent (.blob sha)) : Fits C acked s (s.journal ++ [f]) := by
  refine h.fits.concat ⟨hmanifest, fun path heq => absurd heq (hdelete path), hcancel⟩
    (fun path heq => .inl (hknown path heq)) fun job' c hc => ?_
  obtain ⟨⟨manifests, hwrite, hnone, hserving⟩, hput, -, -⟩ := h
  by_cases heq : job' = job
  · subst heq
    rw [hwrite, Dir.read_write_self] at hc
    refine .inr (Option.some.inj hc ▸ hput.concat fun d hd sha hsha => ?_)
    exact ⟨hblobs d hd sha hsha, hdelete _⟩
  · rw [hwrite, Dir.read_write_of_ne _ _ heq] at hc
    exact .inl ((hserving.manifests job' c hc).concat (hdelete _))

/-- A registration that stops before its manifest stands leaves the store at rest. -/
theorem Registering.resting (h : Registering C acked job content s)
    (hstray : Untouched C content s) : Resting C acked s := by
  obtain ⟨⟨manifests, hwrite, hnone, hserving⟩, -, -, hpending⟩ := id h
  refine ⟨hserving.intact, h.fits, fun f hf => ?_⟩
  have hfollows := hserving.stray_follows f hf
  refine h.fits_concat hfollows.manifest (fun path heq => ?_) hfollows.known
    (fun path heq => hserving.stray_known path (heq ▸ hf)) fun d hd sha hsha heq => ?_
  · have hpath := hserving.stray_pending path (heq ▸ hf)
    rw [show s.pendingDeletes = [] from hpending] at hpath
    cases hpath
  · exact hstray d hd sha hsha (heq ▸ hf)

/-- **The record of a manifest.** -/
theorem Registering.append_ends (h : Registering C acked job content s) (size : Nat)
    (io : Io σ ι) :
    Ends io (append (.put (.manifest job) content size)) s (fun _ => Serving C acked none)
      (fun _ t => Registering C acked job content t ∧ (t = s ∨ Untouched C content t))
      (Resting C acked) := by
  obtain ⟨⟨manifests, hwrite, hnone, hserving⟩, hblobs, hfresh, hpending⟩ := id h
  have hmanifest : ∀ job' c n, (.put (.manifest job) content size : Fields σ ι) =
      .put (.manifest job') c n → BlobsPut C s.journal c := by
    intro job' c n heq
    injection heq with _ hcontent _
    exact hcontent ▸ hblobs
  have hf : Follows C { s with manifests := manifests } s.journal
      (.put (.manifest job) content size) := ⟨hmanifest, nofun, nofun⟩
  refine (Store.append_ends s io _).mono (fun _ t ht => ?_) (fun _ t ht => ?_) fun t ht => ?_
  · obtain ⟨-, hbroken, rfl⟩ := ht
    have hput : HasPut (s.journal ++ [.put (.manifest job) content size]) (.manifest job) :=
      hasPut_concat_put ..
    have hjournaled : Serving C acked none
        { s with
          manifests := manifests
          journal := s.journal ++ [.put (.manifest job) content size] } :=
      hserving.appended hf hbroken nofun (hserving.toRunning.intents_concat nofun)
        (fun q hq => .inl hq) hserving.pending hserving.nodup fun _ hsha => .inl hsha
    exact (hjournaled.writtenManifest hput hpending).of_eq rfl hwrite rfl rfl rfl rfl rfl rfl
  · rcases ht with rfl | ⟨-, rfl⟩
    · exact ⟨h, .inl rfl⟩
    · refine ⟨⟨⟨manifests, hwrite, hnone, ?_⟩, hblobs, hfresh, hpending⟩, .inr ?_⟩
      · exact hserving.of_fewer (hserving.toRunning.astray hf nofun nofun) (fun _ hsha => hsha) rfl
          fun _ hsha => hsha
      · exact fun d hd sha hsha heq => by cases heq
  · obtain ⟨-, rfl⟩ := ht
    refine ⟨hserving.intact, h.fits.of_eq rfl rfl, fun f hf => ?_⟩
    obtain rfl := Option.some.inj hf
    exact (h.fits_concat hmanifest nofun nofun nofun fun _ _ _ _ => nofun).of_eq rfl rfl

/-- **The rollback of a registration.** -/
theorem undoManifest_closed (h : Registering C acked job content s) (size : Nat)
    (hremove : io (.removeManifest job) ≠ .fails ∧ io (.removeManifest job) ≠ .failsLate)
    (hstray : io (.removeManifest job) = .dies → Untouched C content s) :
    Ends io (undoManifest job size) s (fun _ => Serving C acked none)
      (fun _ => Serving C acked none) (Resting C acked) := by
  unfold undoManifest
  rw [ends_bind]
  refine ends_call (fun _ => ?_) (fun hio => ?_) fun hio => h.resting (hstray hio)
  · obtain ⟨⟨manifests, hwrite, hnone, hserving⟩, -, -, -⟩ := h
    have hgone : Serving C acked none { s with manifests := s.manifests.unlink job } := by
      rw [hwrite, Dir.unlink_write]
      exact hserving.of_fewer (hserving.toRunning.unlinked (.manifest job)) (fun _ hsha => hsha) rfl
        fun _ hsha => hsha
    generalize { s with manifests := s.manifests.unlink job } = t at hgone
    unfold removeMeta
    rw [ends_bind]
    refine ends_call (fun _ => ?_) (fun _ => hgone) fun _ => hgone.toRunning.resting
    exact hgone.of_eq rfl rfl rfl rfl rfl rfl rfl rfl
  · exact hio.elim (fun h => absurd h hremove.1) fun h => absurd h hremove.2

/-- The blobs of a manifest are journaled, and no deletion of them is announced any more. -/
theorem settleBlobs_ends (h : Serving C acked none s) (hpending : s.pendingDeletes = [])
    (blobs : List σ) (io : Io σ ι) (hthere : ∀ sha ∈ blobs, s.has (.blob sha) = true) :
    Ends io (do
        blobs.forM (journalIfNeeded C)
        blobs.forM fun sha => cancelIntent (.blob sha) : Op σ ι Unit) s
      (fun _ t => Serving C acked none t ∧ Quiet s t ∧ t.pendingDeletes = [] ∧
        ∀ sha ∈ blobs, HasPut t.journal (.blob sha) ∧
          objectState t.journal (.blob sha) = some .put)
      (fun _ => Serving C acked none) (Resting C acked) := by
  refine Ends.bind (R := fun _ t => (Serving C acked none t ∧ Quiet s t ∧ t.pendingDeletes = []) ∧
    ∀ sha ∈ blobs, sha ∉ t.unjournaled) ?_ fun _ t ht => ?_
  · refine ends_forM_each blobs (fun sha _ t ht => ?_) ⟨h, .refl s, hpending⟩
    obtain ⟨ht, hquiet, hpend⟩ := ht
    refine (journalIfNeeded_ends ht sha).imp fun _ u hu => ?_
    exact ⟨⟨hu.1, hquiet.trans hu.2.1, hu.2.2.1.trans hpend⟩, hu.2.2.2,
      fun sha' hsha' hin => hsha' (hu.2.1.unjournaled sha' hin)⟩
  · obtain ⟨⟨ht, hquiet, hpend⟩, hjournaled⟩ := ht
    have hput : ∀ sha ∈ blobs, t.has (.blob sha) = true ∧ HasPut t.journal (.blob sha) := by
      intro sha hsha
      have hhas : t.has (.blob sha) = true := (hquiet.files.has _).trans (hthere sha hsha)
      rcases ht.blobs sha hhas with hsome | hin | hput
      · cases hsome
      · exact absurd hin (hjournaled sha hsha)
      · exact ⟨hhas, hput⟩
    have hcancel : Ends io (blobs.forM fun sha => cancelIntent (.blob sha)) t
        (fun _ u => (Serving C acked none u ∧ Quiet t u ∧ u.pendingDeletes = []) ∧
          ∀ sha ∈ blobs, .blob sha ∉ u.intents)
        (fun _ => Serving C acked none) (Resting C acked) := by
      refine ends_forM_each blobs (fun sha hsha u hu => ?_) ⟨ht, .refl t, hpend⟩
      obtain ⟨hu, hquiet', hpend'⟩ := hu
      obtain ⟨hhas, hput⟩ := hput sha hsha
      refine (cancelIntent_ends hu fun _ => hquiet'.kept _ hhas hput).imp fun _ v hv => ?_
      exact ⟨⟨hv.1, hquiet'.trans hv.2.1, hv.2.2.1.trans hpend'⟩, hv.2.2.2,
        fun sha' hsha' hin => hsha' (hv.2.1.intents _ hin)⟩
    refine hcancel.imp fun _ u hu => ?_
    obtain ⟨⟨hu, hquiet', hpend'⟩, hcancelled⟩ := hu
    refine ⟨hu, hquiet.trans hquiet', hpend', fun sha hsha => ?_⟩
    obtain ⟨hhas, hput⟩ := hput sha hsha
    have hput := hquiet'.kept _ hhas hput
    refine ⟨hput, hput.state.resolve_right fun hint => ?_⟩
    exact hcancelled sha hsha (hu.intents sha hint)

/-- **A registration**, whose manifest is not written by a call that fails, and is removed if the
registration fails behind it. -/
theorem registerManifest_closed (h : Serving C acked none s)
    (hacked : .manifest job ∈ acked → s.has (.manifest job) = true)
    (hwrite : io (.writeManifest job) ≠ .failsLate)
    (hremove : io (.removeManifest job) ≠ .fails ∧ io (.removeManifest job) ≠ .failsLate)
    (hstray : Untouched C content s ∨
      ((∀ m, io (.writeMeta job m) ≠ .dies) ∧ io (.removeManifest job) ≠ .dies)) :
    Ends io (registerManifest C cfg job content) s (fun _ => Serving C acked none)
      (fun _ => Serving C acked none) (Resting C acked) := by
  unfold registerManifest
  dsimp only
  split_ifs
  · exact h
  · cases hdoc : C.parseManifestDoc content with
    | none => exact h
    | some d =>
      refine ((readManifest_ends s io job).mono (fun _ _ ht => ht) (fun _ t ht => ht ▸ h)
        fun t ht => ht ▸ h.toRunning.resting).bind fun r t ht => ?_
      obtain ⟨rfl, -, hnone⟩ := ht
      cases r with
      | some existing =>
        dsimp only
        split_ifs
        · exact h
        · exact h
      | none =>
        have hnone := hnone rfl
        have hfresh : .manifest job ∉ acked := by
          intro hin
          have hhas := hacked hin
          simp [ObjectStore.has, hnone] at hhas
        refine ((missingFiles_ends t io d.files).mono (fun _ _ hu => hu) (fun _ u hu => hu ▸ h)
          fun u hu => hu ▸ h.toRunning.resting).bind fun missing u hu => ?_
        obtain ⟨rfl, hmissing⟩ := hu
        by_cases hnil : missing = []
        · rw [if_neg (not_not.2 hnil), ends_bind, ends_get]
          split_ifs
          · exact h
          · have hthere : ∀ sha ∈ d.blobs, u.has (.blob sha) = true := by
              intro sha hsha
              obtain ⟨f, hf, rfl⟩ := List.mem_map.1 hsha
              obtain ⟨g, hg, -⟩ := Option.map_eq_some_iff.1 (hmissing hnil f hf)
              simp [ObjectStore.has, hg]
            refine ((flushPendingDeletes_ends h).mono (fun _ _ hv => hv) (fun _ _ hv => hv.1)
              fun _ hv => hv).bind fun _ v hv => ?_
            obtain ⟨hv, hquiet, hpending⟩ := hv
            have hsettle := settleBlobs_ends hv hpending d.blobs io
              fun sha hsha => (hquiet.files.has _).trans (hthere sha hsha)
            rw [ends_bind] at hsettle ⊢
            refine hsettle.imp fun _ x hx => hx.bind fun _ y hy => ?_
            obtain ⟨hy, hquiet', hpending, hput⟩ := hy
            have hquiet := hquiet.trans hquiet'
            have hblobs : BlobsPut C y.journal content := by
              intro d' hd' sha hsha
              rw [hdoc] at hd'
              exact hput sha (Option.some.inj hd' ▸ hsha)
            have hynone : y.manifests.read job = none := by
              rw [hquiet.files.manifests]
              exact hnone
            unfold writeManifest
            rw [ends_bind]
            refine ends_write (fun _ => ?_) (fun _ => hy) (fun hio => absurd hio hwrite)
              fun _ => hy.toRunning.resting
            rw [ends_bind, ends_modify, ends_bind, ends_handle]
            have hregistering : Registering C acked job content
                { y with
                  manifests := y.manifests.write job content
                  bytes := y.bytes + C.sizeOf content } :=
              ⟨⟨y.manifests, rfl, hynone, hy.of_eq rfl rfl rfl rfl rfl rfl rfl rfl⟩, hblobs, hfresh,
                hpending⟩
            have hsafe : Untouched C content
                { y with
                  manifests := y.manifests.write job content
                  bytes := y.bytes + C.sizeOf content } ∨
                ((∀ m, io (.writeMeta job m) ≠ .dies) ∧ io (.removeManifest job) ≠ .dies) := by
              refine hstray.imp_left fun hclean d' hd' sha hsha => ?_
              rw [show _ = u.stray from hquiet.stray]
              exact hclean d' hd' sha hsha
            generalize { y with
              manifests := y.manifests.write job content
              bytes := y.bytes + C.sizeOf content } = z at hregistering hsafe
            refine Ends.mono (R := fun _ => Serving C acked none)
              (T := fun _ x => Registering C acked job content x ∧
                (Untouched C content x ∨ io (.removeManifest job) ≠ .dies)) (D := Resting C acked) ?_
              (fun _ x hx => hx.withIntents hx.intents) (fun e x hx => ?_) fun _ hx => hx
            · rw [ends_bind, ends_get]
              unfold writeMeta
              rw [ends_bind]
              have hmeta : ∀ m, Registering C acked job content
                  { z with metas := z.metas.write job m } :=
                fun m => hregistering.of_eq rfl rfl rfl rfl rfl rfl rfl rfl
              refine ends_write (fun _ => ?_) (fun _ => ⟨hregistering, hsafe.imp_right And.right⟩)
                (fun _ => ⟨hmeta _, hsafe.imp_right And.right⟩) fun hio => ?_
              · refine ((hmeta _).append_ends _ io).mono (fun _ _ hx => hx) (fun _ x hx => ?_)
                  fun _ hx => hx
                refine ⟨hx.1, ?_⟩
                rcases hx.2 with rfl | hclean
                · exact hsafe.imp_right And.right
                · exact .inl hclean
              · refine hregistering.resting (hsafe.resolve_right fun hcond => ?_)
                exact hcond.1 _ hio
            · refine (undoManifest_closed hx.1 _ hremove fun hio => ?_).bind fun _ _ hv => hv
              exact hx.2.resolve_right fun hne => hne hio
        · rw [if_pos hnil]
          exact h

end Registering

end Store
end LaneBroker
