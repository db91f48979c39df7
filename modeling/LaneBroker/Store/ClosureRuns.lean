/-
# The journal is closed in every run

What is journaled again, what a process does when it opens the store, and the runs of the
store.  Five steps can break the invariant, and `Closes` excludes them: a registration that
fails and leaves its manifest behind, or dies with it beside a stray record of the deletion of
one of its blobs; a deletion of a blob that was never put, which is announced and not carried
out; a manifest that is journaled again when its blobs are not; and a power loss that brings
files back.
-/

import LaneBroker.Store.ClosureSteps

namespace LaneBroker
namespace Store

open LaneBroker.Basis Fallible

variable {σ ι : Type} [DecidableEq σ] [DecidableEq ι] {C : Contents σ} {cfg : Config}
  {acked : List (Path σ ι)} {s t u : ObjectStore σ ι}

/-! ### Journaling again -/

/-- A flush says nothing of what is not pending. -/
theorem flushPendingDeletes_others (s : ObjectStore σ ι) (io : Io σ ι) :
    Ends io (flushPendingDeletes : Op σ ι Unit) s
      (fun _ t => ∀ q ∉ s.pendingDeletes, (HasPut s.journal q → HasPut t.journal q) ∧
        objectState t.journal q = objectState s.journal q)
      (fun _ _ => True) fun _ => True := by
  refine ends_forM (I := fun t : ObjectStore σ ι => ∀ q ∉ s.pendingDeletes, (HasPut s.journal q → HasPut t.journal q) ∧
    objectState t.journal q = objectState s.journal q) s.pendingDeletes (fun path hpath t ht => ?_)
    fun q _ => ⟨id, rfl⟩
  unfold journalDelete
  refine ((append_ends t io _).mono (fun _ _ hu => hu) (fun _ _ _ => trivial)
    fun _ _ => trivial).bind fun _ u hu => ?_
  obtain ⟨-, -, rfl⟩ := hu
  rw [ends_modify]
  intro q hq
  obtain ⟨hput, hstate⟩ := ht q hq
  have hne : path ≠ q := fun heq => hq (heq ▸ hpath)
  refine ⟨fun h => (hput h).concat fun heq => hne (Fields.delete.inj heq), ?_⟩
  change objectState (t.journal ++ [.delete path]) q = _
  rw [objectState_concat, ← hstate]
  simp [Fields.stateOf, Fields.object, hne]

/-- A blob has been put, as the last record of it says. -/
def BlobPut (js : List (Fields σ ι)) (sha : σ) : Prop :=
  HasPut js (.blob sha) ∧ objectState js (.blob sha) = some .put

theorem BlobPut.concat_put {js : List (Fields σ ι)} {sha : σ} (h : BlobPut js sha)
    (path : Path σ ι) (content : σ) (size : Nat) :
    BlobPut (js ++ [.put path content size]) sha := by
  refine ⟨h.1.concat nofun, ?_⟩
  rcases objectState_concat_cases js (.put path content size) (.blob sha) with heq | ⟨st, hst, heq⟩
  · rw [heq, h.2]
  · rw [heq, ← (Prod.mk.inj (Option.some.inj hst)).2]

theorem blobPut_concat_self (js : List (Fields σ ι)) (sha content : σ) (size : Nat) :
    BlobPut (js ++ [.put (.blob sha) content size]) sha := by
  refine ⟨hasPut_concat_put .., ?_⟩
  rw [objectState_concat]
  simp [Fields.stateOf, Fields.object]

/-- **The manifests among these paths come behind their blobs**, in the journal or in the list. -/
def InOrder (C : Contents σ) (put : σ → Prop) (s : ObjectStore σ ι) (paths : List (Path σ ι)) :
    Prop :=
  ∀ before job after content d, paths = before ++ .manifest job :: after →
    s.manifests.read job = some content → C.parseManifestDoc content = some d →
      ∀ sha ∈ d.blobs, put sha ∨ (.blob sha ∈ before ∧ s.has (.blob sha) = true)

/-- **One path is journaled again**, unless it is not there. -/
theorem rejournalPath_ends (h : Serving C acked none s) (path : Path σ ι) (io : Io σ ι)
    (hmanifest : ∀ job content, path = .manifest job → s.manifests.read job = some content →
      BlobsPut C s.journal content) :
    Ends io (rejournalPath C path) s
      (fun _ t => Serving C acked none t ∧ SameFiles s t ∧
        ((t.journal = s.journal ∧ s.has path = false) ∨
          ∃ content size, t.journal = s.journal ++ [.put path content size]))
      (fun _ => Serving C acked none) (Resting C acked) := by
  have hverifying : ∀ {v : ObjectStore σ ι} {vs : List (Path σ ι)}, Serving C acked none v →
      Serving C acked none { v with verifying := vs } :=
    fun hv => hv.of_eq rfl rfl rfl rfl rfl rfl rfl rfl
  unfold rejournalPath
  rw [ends_bind, ends_modify, ends_ensuring, contentOnDisk_eq]
  have hstart : Serving C acked none { s with verifying := path :: s.verifying } := hverifying h
  have hsame : SameFiles s { s with verifying := path :: s.verifying } := ⟨rfl, rfl, rfl⟩
  have hjournal : ({ s with verifying := path :: s.verifying } : ObjectStore σ ι).journal =
    s.journal := rfl
  generalize { s with verifying := path :: s.verifying } = v at hstart hsame hjournal
  refine ends_ask_bind ?_ (hverifying hstart) hstart.toRunning.resting
  cases hread : v.contentAt path with
  | none =>
    exact ⟨hverifying hstart, ⟨hsame.blobs, hsame.manifests, hsame.metas⟩,
      .inl ⟨hjournal, (hsame.has path).symm.trans (not_has_of_contentAt hread)⟩⟩
  | some content =>
    have hf : Follows C v v.journal (.put path content (C.sizeOf content)) := by
      refine ⟨fun job c n heq => ?_, nofun, nofun⟩
      injection heq with hpath hc _
      subst hpath
      rw [hjournal, ← hc]
      exact hmanifest job content rfl (hsame.manifests ▸ hread)
    refine (hstart.append_ends io hf nofun nofun).mono (fun _ x hx => ?_)
      (fun _ x hx => hverifying hx.1) fun _ hx => hx
    obtain ⟨hbroken, rfl⟩ := hx
    rw [ends_modify]
    refine ⟨hverifying ?_, ⟨hsame.blobs, hsame.manifests, hsame.metas⟩,
      .inr ⟨content, C.sizeOf content, congrArg (· ++ [_]) hjournal⟩⟩
    exact hstart.appended hf hbroken nofun (hstart.toRunning.intents_concat nofun)
      (fun q hq => .inl hq) hstart.pending hstart.nodup fun _ hsha => .inl hsha

theorem rejournalFrom_ends (paths : List (Path σ ι)) (k : Nat) (io : Nat × Site σ ι → Answer) :
    ∀ s : ObjectStore σ ι, Serving C acked none s → InOrder C (BlobPut s.journal) s paths →
      Ends io (rejournalFrom C k paths) s (fun _ => Serving C acked none)
        (fun _ => Serving C acked none) (Resting C acked) := by
  induction paths generalizing k with
  | nil => exact fun s h _ => h
  | cons path paths ih =>
    intro s h horder
    unfold rejournalFrom
    rw [ends_bind, ends_under]
    refine (rejournalPath_ends h path _ fun job content hpath hread d hd sha hsha => ?_).imp
      fun _ t ht => ?_
    · subst hpath
      exact (horder [] job paths content d rfl hread hd sha hsha).resolve_right
        fun hin => absurd hin.1 (List.not_mem_nil)
    · obtain ⟨ht, hsame, hjournal⟩ := ht
      refine ih (k + 1) t ht fun before job after content d hsplit hread hd sha hsha => ?_
      rw [hsame.manifests] at hread
      rcases horder (path :: before) job after content d (by rw [hsplit]; rfl) hread hd sha hsha with
        hput | ⟨hin, hhas⟩
      · rcases hjournal with ⟨heq, -⟩ | ⟨c, n, heq⟩
        · exact .inl (heq ▸ hput)
        · exact .inl (heq ▸ hput.concat_put path c n)
      · rcases List.mem_cons.1 hin with rfl | hin
        · rcases hjournal with ⟨-, hgone⟩ | ⟨c, n, heq⟩
          · exact absurd (hhas.symm.trans hgone) (by simp)
          · exact .inl (heq ▸ blobPut_concat_self ..)
        · exact .inr ⟨hin, (hsame.has _).trans hhas⟩

/-- **`rejournal`**, of manifests behind their blobs. -/
theorem rejournal_ends (h : Serving C acked none s) (paths : List (Path σ ι))
    (io : Nat × Site σ ι → Answer)
    (horder : InOrder C (fun sha => BlobPut s.journal sha ∧ .blob sha ∉ s.pendingDeletes) s paths) :
    Ends io (rejournal C paths) s (fun _ => Serving C acked none) (fun _ => Serving C acked none)
      (Resting C acked) := by
  unfold rejournal
  rw [ends_bind, ends_under]
  refine ((flushPendingDeletes_ends h).and (flushPendingDeletes_others s _)).mono (fun _ t ht => ?_)
    (fun _ _ ht => ht.1.1) fun _ ht => ht.1
  obtain ⟨⟨ht, hquiet, -⟩, hothers⟩ := ht
  refine rejournalFrom_ends paths 1 io t ht fun before job after content d hsplit hread hd sha hsha => ?_
  rw [hquiet.files.manifests] at hread
  rcases horder before job after content d hsplit hread hd sha hsha with ⟨hput, hpend⟩ | ⟨hin, hhas⟩
  · obtain ⟨hkept, hstate⟩ := hothers _ hpend
    exact .inl ⟨hkept hput.1, hstate.trans hput.2⟩
  · exact .inr ⟨hin, (hquiet.files.has _).trans hhas⟩

/-! ### Opening -/

/-- **A process that reconciles**: its memory is the journal and the intents. -/
structure Opening (C : Contents σ) (acked : List (Path σ ι)) (s : ObjectStore σ ι) : Prop where
  intact : BlobsIntact s
  fits : Fits C acked s s.journal
  working : s.broken = false
  stray : s.stray = none
  intents : ∀ sha, objectState s.journal (.blob sha) = some .intent → .blob sha ∈ s.intents
  pending : s.pendingDeletes = []

theorem Opening.resting (h : Opening C acked s) : Resting C acked s :=
  ⟨h.intact, h.fits, fun _ hf => absurd (h.stray.symm.trans hf) (by simp)⟩

/-- A new process reads what the one before it left. -/
theorem Resting.restarted (h : Resting C acked s) (adopt : Bool) :
    Opening C acked (s.restarted C adopt) := by
  have hfits : Fits C acked s (s.restarted C adopt).journal := by
    cases adopt with
    | false => exact h.fits
    | true =>
      cases hstray : s.stray with
      | none =>
        have hj : (s.restarted C true).journal = s.journal := by
          simp [ObjectStore.restarted, hstray]
        exact hj ▸ h.fits
      | some f =>
        have hj : (s.restarted C true).journal = s.journal ++ [f] := by
          simp [ObjectStore.restarted, hstray]
        exact hj ▸ h.stray f hstray
  refine ⟨h.intact, hfits.of_eq rfl rfl, rfl, rfl, fun sha hsha => ?_, rfl⟩
  have hsome : objectState (s.restarted C adopt).journal (.blob sha) ≠ none := by
    rw [hsha]
    exact Option.some_ne_none _
  exact List.mem_filter.2 ⟨mem_journaledPaths hsome, decide_eq_true hsha⟩

/-- **An append while the process reconciles.** -/
theorem Opening.append_ends (h : Opening C acked s) (io : Io σ ι) {f : Fields σ ι}
    (hf : Follows C s s.journal f) (hintent : ∀ path, f ≠ .deleteIntent path)
    (hmanifests : ∀ job content, s.manifests.read job = some content →
      HasPut (s.journal ++ [f]) (.manifest job) ∨ BlobsPut C (s.journal ++ [f]) content) :
    Ends io (append f) s
      (fun _ t => Opening C acked t ∧ SameFiles s t ∧ t.journal = s.journal ++ [f])
      (fun _ => Resting C acked) (Resting C acked) := by
  have hfits := h.fits.concat hf (fun path heq => absurd heq (hintent path)) hmanifests
  have hastray : ∀ b : Bool, Resting C acked { s with broken := b, stray := some f } := by
    refine fun b => ⟨h.intact, h.fits.of_eq rfl rfl, fun g hg => ?_⟩
    rw [← Option.some.inj hg]
    exact hfits.of_eq rfl rfl
  refine (Store.append_ends s io f).mono (fun _ t ht => ?_) (fun _ t ht => ?_) fun t ht => ?_
  · obtain ⟨-, -, rfl⟩ := ht
    refine ⟨⟨h.intact, hfits.of_eq rfl rfl, h.working, h.stray, fun sha hsha => ?_, h.pending⟩,
      ⟨rfl, rfl, rfl⟩, rfl⟩
    rcases objectState_concat_cases s.journal f (.blob sha) with heq | ⟨st, hst, heq⟩
    · exact h.intents sha (heq ▸ hsha)
    · rcases object_cases hst with ⟨rfl, -⟩ | ⟨-, rfl⟩ | ⟨rfl, -⟩
      · exact absurd (heq.symm.trans hsha) (by simp)
      · exact absurd rfl (hintent _)
      · exact absurd (heq.symm.trans hsha) (by simp)
  · rcases ht with rfl | ⟨-, rfl⟩
    · exact h.resting
    · exact hastray true
  · obtain ⟨-, rfl⟩ := ht
    exact hastray s.broken

/-- What the first half of a reconcile keeps: it only puts, and only what is on disk. -/
structure Putting (C : Contents σ) (acked : List (Path σ ι)) (s t : ObjectStore σ ι) : Prop where
  opening : Opening C acked t
  files : SameFiles s t
  kept : ∀ q, HasPut s.journal q → HasPut t.journal q
  blobs : ∀ content, BlobsPut C s.journal content → BlobsPut C t.journal content
  others : ∀ q, s.has q = false → objectState t.journal q = objectState s.journal q

theorem Opening.mem_orphans (h : Opening C acked s) {path : Path σ ι} (hhas : s.has path = true)
    (hput : ¬HasPut s.journal path) : path ∈ s.orphans := by
  unfold ObjectStore.orphans
  refine List.mem_filter.2 ⟨?_, decide_eq_true ⟨fun hstate => hput (h.fits.puts path hstate),
    fun hstate => hput (h.fits.intended path hhas hstate)⟩⟩
  rw [List.mem_append]
  cases path with
  | blob sha =>
    obtain ⟨f, hf⟩ := Option.isSome_iff_exists.1 hhas
    exact .inl (List.mem_map.2 ⟨(sha, f), Dir.mem_of_read hf, rfl⟩)
  | manifest job =>
    obtain ⟨c, hc⟩ := Option.isSome_iff_exists.1 hhas
    exact .inr (List.mem_map.2 ⟨(job, c), Dir.mem_of_read hc, rfl⟩)

/-- **An orphan is journaled.** -/
theorem journalOrphan_ends (hs : Opening C acked s) (h : Putting C acked s t) {path : Path σ ι}
    (horphan : path ∈ s.orphans) (io : Io σ ι) :
    Ends io (journalOrphan C path) t
      (fun _ u => Putting C acked s u ∧ HasPut u.journal path ∧
        ∀ q, HasPut t.journal q → HasPut u.journal q)
      (fun _ => Resting C acked) (Resting C acked) := by
  have hlive : ¬HasPut s.journal path := by
    intro hput
    have hstates := of_decide_eq_true (List.mem_filter.1 horphan).2
    exact hput.state.elim hstates.1 hstates.2
  unfold journalOrphan
  rw [contentOnDisk_eq]
  refine ends_ask_bind ?_ h.opening.resting h.opening.resting
  cases hread : t.contentAt path with
  | none => cases path <;> exact h.opening.resting
  | some content =>
    have hhas : s.has path = true := (h.files.has path).symm.trans (has_of_contentAt hread)
    have hput : Ends io (append (.put path content (C.sizeOf content))) t
        (fun _ u => Putting C acked s u ∧ HasPut u.journal path ∧
          ∀ q, HasPut t.journal q → HasPut u.journal q)
        (fun _ => Resting C acked) (Resting C acked) := by
      have hf : Follows C t t.journal (.put path content (C.sizeOf content)) := by
        refine ⟨fun job c n heq => ?_, nofun, nofun⟩
        injection heq with hpath hc _
        subst hpath
        have hcontent : s.manifests.read job = some content := by
          rw [← h.files.manifests]
          exact hread
        rw [← hc]
        exact h.blobs content ((hs.fits.manifests job content hcontent).resolve_left hlive)
      refine (h.opening.append_ends io hf nofun fun job c hc => ?_).imp fun _ u hu => ?_
      · exact (h.opening.fits.manifests job c hc).imp (fun hput => hput.concat nofun)
          fun hput => hput.concat fun _ _ _ _ => ⟨nofun, nofun⟩
      · obtain ⟨hu, hfiles, hj⟩ := hu
        rw [hj]
        refine ⟨⟨hu, h.files.trans hfiles, fun q hq => ?_, fun c hc => ?_, fun q hq => ?_⟩,
          hasPut_concat_put .., fun q hq => hq.concat nofun⟩
        · rw [hj]
          exact (h.kept q hq).concat nofun
        · rw [hj]
          exact (h.blobs c hc).concat fun _ _ _ _ => ⟨nofun, nofun⟩
        · rw [hj, objectState_concat, ← h.others q hq]
          have hne : path ≠ q := by
            rintro rfl
            exact absurd (hhas.symm.trans hq) (by simp)
          simp [Fields.stateOf, Fields.object, hne]
    cases path with
    | manifest job => exact hput
    | blob sha =>
      dsimp only
      rw [if_neg]
      · exact hput
      · obtain ⟨f, hf, rfl⟩ := Option.map_eq_some_iff.1 hread
        exact not_not.2 (h.opening.intact sha f hf)

/-- What the second half keeps: what is on disk is put, and no deletion is announced. -/
structure Settling (C : Contents σ) (acked : List (Path σ ι)) (s t : ObjectStore σ ι) : Prop where
  opening : Opening C acked t
  files : SameFiles s t
  there : ∀ q, s.has q = true → HasPut t.journal q
  missing : ∀ q, s.has q = false → objectState t.journal q = some .intent →
    objectState s.journal q = some .intent

/-- **A path that is missing is settled.** -/
theorem settleMissing_ends (h : Settling C acked s t) {path : Path σ ι} (hgone : s.has path = false)
    (io : Io σ ι) :
    Ends io (settleMissing (objectState s.journal) path) t
      (fun _ u => Settling C acked s u ∧ objectState u.journal path ≠ some .intent ∧
        ∀ q, objectState t.journal q ≠ some .intent → objectState u.journal q ≠ some .intent)
      (fun _ => Resting C acked) (Resting C acked) := by
  unfold settleMissing
  split
  · have hf : Follows C t t.journal (.delete path) :=
      ⟨by intros; contradiction,
        fun q hq => Fields.delete.inj hq ▸ (h.files.has path).trans hgone,
        by intros; contradiction⟩
    have hkept : ∀ q, s.has q = true → HasPut (t.journal ++ [.delete path]) q := by
      intro q hq
      refine (h.there q hq).concat fun heq => ?_
      rw [Fields.delete.inj heq, hq] at hgone
      cases hgone
    have hstate : ∀ q, objectState (t.journal ++ [.delete path]) q =
        if path = q then some .delete else objectState t.journal q := by
      intro q
      rw [objectState_concat]
      simp only [Fields.stateOf, Fields.object]
      split_ifs <;> rfl
    refine (h.opening.append_ends io hf (fun _ heq => (by cases heq))
      fun job c hc => .inl (hkept _ ?_)).imp fun _ u hu => ?_
    · rw [← h.files.has]
      exact has_of_read hc
    · obtain ⟨hu, hfiles, hj⟩ := hu
      refine ⟨⟨hu, h.files.trans hfiles, fun q hq => hj ▸ hkept q hq, fun q hq hint => ?_⟩, ?_,
        fun q hq => ?_⟩
      · rw [hj, hstate] at hint
        split_ifs at hint
        · cases hint
        · exact h.missing q hq hint
      · rw [hj, hstate, if_pos rfl]
        decide
      · rw [hj, hstate]
        split_ifs
        · decide
        · exact hq
  · rename_i hput
    refine ⟨⟨?_, h.files.trans ⟨rfl, rfl, rfl⟩, h.there, h.missing⟩, fun hint => ?_, fun _ hq => hq⟩
    · exact ⟨h.opening.intact, h.opening.fits.of_eq rfl rfl, h.opening.working, h.opening.stray,
        h.opening.intents, h.opening.pending⟩
    · exact absurd (hput.symm.trans (h.missing path hgone hint)) (by simp)
  · rename_i hintent _
    exact ⟨h, fun hint => hintent (h.missing path hgone hint), fun _ hq => hq⟩

/-- **`reconcile`**: a process that opens a store at rest serves it. -/
theorem reconcile_ends (h : Opening C acked s) (io : Io σ ι) :
    Ends io (reconcile C) s (fun _ => Serving C acked none) (fun _ => Resting C acked)
      (Resting C acked) := by
  unfold reconcile
  refine ends_ask_bind ?_ h.resting h.resting
  have hstart : Putting C acked s s := ⟨h, .refl s, fun _ => id, fun _ => id, fun _ _ => rfl⟩
  have horphans : Ends io (s.orphans.forM (journalOrphan C)) s
      (fun _ t => Putting C acked s t ∧ ∀ q ∈ s.orphans, HasPut t.journal q)
      (fun _ => Resting C acked) (Resting C acked) :=
    ends_forM_each s.orphans (fun path hpath t ht => journalOrphan_ends h ht hpath io) hstart
  refine horphans.bind fun _ t ht => ?_
  obtain ⟨ht, horphans⟩ := ht
  have hthere : ∀ q, s.has q = true → HasPut t.journal q := by
    intro q hq
    by_cases hput : HasPut s.journal q
    · exact ht.kept q hput
    · exact horphans q (h.mem_orphans hq hput)
  have hsettling : Settling C acked s t :=
    ⟨ht.opening, ht.files, hthere, fun q hq hint => ht.others q hq ▸ hint⟩
  have hmissing : Ends io (((journaledPaths s.journal).filter fun p => !s.has p).forM
      (settleMissing (objectState s.journal))) t
      (fun _ u => Settling C acked s u ∧
        ∀ q ∈ (journaledPaths s.journal).filter fun p => !s.has p,
          objectState u.journal q ≠ some .intent)
      (fun _ => Resting C acked) (Resting C acked) :=
    ends_forM_each _ (fun path hpath t ht => settleMissing_ends ht
      (by simpa using (List.mem_filter.1 hpath).2) io) hsettling
  refine hmissing.imp fun _ u hu => ?_
  obtain ⟨hu, hsettled⟩ := hu
  have hfits := hu.opening.fits
  have hhas : ∀ q, u.has q = true → HasPut u.journal q := fun q hq =>
    hu.there q ((hu.files.has q).symm.trans hq)
  refine Running.serving ?_ fun sha hsha => .inr (.inr (hhas _ hsha))
  refine ⟨hu.opening.intact, hfits.closed, fun job c hc => hhas _ (has_of_read hc),
    hfits.acknowledged, hfits.puts, fun q hint => .inl ?_, fun _ => hu.opening.stray,
    fun f hf => absurd (hu.opening.stray.symm.trans hf) (by simp),
    fun _ hf => absurd (hu.opening.stray.symm.trans hf) (by simp),
    fun _ hf => absurd (hu.opening.stray.symm.trans hf) (by simp), hu.opening.intents,
    fun q hq => ?_, ?_⟩
  · cases hq : s.has q with
    | true => exact hu.there q hq
    | false =>
      have hstart := hu.missing q hq hint
      refine absurd hint (hsettled q (List.mem_filter.2 ⟨mem_journaledPaths ?_, by simp [hq]⟩))
      rw [hstart]
      exact Option.some_ne_none _
  · rw [hu.opening.pending] at hq
    cases hq
  · rw [hu.opening.pending]
    exact List.nodup_nil

/-! ### Runs -/

section Runs

variable {w w' : StoreWorld σ ι}

/-- **What comes back has been put**: a manifest, or all of its blobs, and whatever was about to be
deleted. -/
structure Restores (C : Contents σ) (s t : ObjectStore σ ι) (js : List (Fields σ ι)) : Prop where
  manifests : ∀ job content, t.manifests.read job = some content →
    s.manifests.read job = some content ∨ HasPut js (.manifest job) ∨ BlobsPut C js content
  intended : ∀ path, t.has path = true →
    s.has path = true ∨ HasPut js path ∨ objectState js path ≠ some .intent

/-- **The steps that keep the journal closed.** -/
def Closes (C : Contents σ) (w : StoreWorld σ ι) : StoreMove σ ι → Prop
  | .registerManifest job content io =>
    io (.writeManifest job) ≠ .failsLate ∧
      (io (.removeManifest job) ≠ .fails ∧ io (.removeManifest job) ≠ .failsLate) ∧
        (Untouched C content w.store ∨
          ((∀ m, io (.writeMeta job m) ≠ .dies) ∧ io (.removeManifest job) ≠ .dies))
  | .deleteObject path io =>
    w.store.has path = true → HasPut w.store.journal path ∨ Whole io path
  | .sweep _ io => ∀ sha, w.store.has (.blob sha) = true → ¬HasPut w.store.journal (.blob sha) →
    ∀ pass, Whole (fun c => io (pass, c)) (.blob sha)
  | .rejournal paths _ =>
    InOrder C (fun sha => BlobPut w.store.journal sha ∧ .blob sha ∉ w.store.pendingDeletes) w.store
      paths
  | .powerLoss blobs manifests metas =>
    BlobsIntact { w.store with blobs, manifests, metas } ∧
      ∀ js, js = w.store.journal ∨ (∃ f, w.store.stray = some f ∧ js = w.store.journal ++ [f]) →
        Restores C w.store { w.store with blobs, manifests, metas } js
  | _ => True

/-- **The invariant of the runs.** -/
structure Closed (C : Contents σ) (w : StoreWorld σ ι) : Prop where
  there : ∀ path ∈ w.acknowledged, w.store.has path = true
  up : w.up = true → Serving C w.acknowledged none w.store
  resting : Resting C w.acknowledged w.store

theorem Fits.of_acked {acked' : List (Path σ ι)} {js : List (Fields σ ι)} (h : Fits C acked s js)
    (hsub : ∀ path ∈ acked', path ∈ acked) : Fits C acked' s js :=
  ⟨h.closed, h.manifests, fun path hp => h.acknowledged path (hsub path hp), h.puts, h.intended⟩

theorem Resting.of_acked {acked' : List (Path σ ι)} (h : Resting C acked s)
    (hsub : ∀ path ∈ acked', path ∈ acked) : Resting C acked' s :=
  ⟨h.intact, h.fits.of_acked hsub, fun f hf => (h.stray f hf).of_acked hsub⟩

theorem Serving.of_acked {acked' : List (Path σ ι)} {out : Option σ} (h : Serving C acked out s)
    (hacked : ∀ path ∈ acked', s.has path = true → HasPut s.journal path) :
    Serving C acked' out s :=
  { h with acknowledged := hacked }

/-- What a process leaves that rests. -/
theorem Resting.world (h : Resting C w.acknowledged s) :
    Closed C (w.withStore s [] false) := by
  refine ⟨fun path hp => (List.mem_filter.1 hp).2, nofun, h.of_acked fun path hp => ?_⟩
  exact (List.mem_filter.1 hp).1

/-- What a process leaves that serves, and what it has acknowledged. -/
theorem Serving.world (h : Serving C w.acknowledged none s) (hacked : ∀ path ∈ acked,
    s.has path = true → HasPut s.journal path) : Closed C (w.withStore s acked true) := by
  have hserving : Serving C (w.withStore s acked true).acknowledged none s := by
    refine h.of_acked fun path hp hhas => ?_
    rcases List.mem_append.1 (List.mem_filter.1 hp).1 with hp | hp
    · exact hacked path hp hhas
    · exact h.acknowledged path hp hhas
  exact ⟨fun path hp => (List.mem_filter.1 hp).2, fun _ => hserving, hserving.toRunning.resting⟩

/-- **An operation keeps the invariant.** -/
theorem closed_runs {κ α : Type} {m : Fallible κ (ObjectStore σ ι) (StoreError σ) α} {io : κ → Answer}
    (h : Ends io m w.store (fun _ t => Serving C w.acknowledged none t ∧
        ∀ path ∈ acked, t.has path = true → HasPut t.journal path)
      (fun _ => Serving C w.acknowledged none) (Resting C w.acknowledged))
    (hnext : w.runs m io acked = some w') : Closed C w' := by
  unfold StoreWorld.runs at hnext
  unfold Ends at h
  split_ifs at hnext
  generalize m io w.store = r at hnext h
  obtain ⟨o, s⟩ := r
  cases o with
  | returned a =>
    obtain rfl := Option.some.inj hnext
    exact h.1.world h.2
  | thrown e =>
    obtain rfl := Option.some.inj hnext
    exact Serving.world h (by simp)
  | died =>
    obtain rfl := Option.some.inj hnext
    exact Resting.world h

/-- An operation that acknowledges nothing new. -/
theorem closed_runs_none {κ α : Type} {m : Fallible κ (ObjectStore σ ι) (StoreError σ) α}
    {io : κ → Answer}
    (h : Ends io m w.store (fun _ => Serving C w.acknowledged none)
      (fun _ => Serving C w.acknowledged none) (Resting C w.acknowledged))
    (hnext : w.runs m io [] = some w') : Closed C w' :=
  closed_runs (h.imp fun _ _ ht => ⟨ht, by simp⟩) hnext

theorem up_of_runs {κ α : Type} {m : Fallible κ (ObjectStore σ ι) (StoreError σ) α} {io : κ → Answer}
    (hnext : w.runs m io acked = some w') : w.up = true := by
  unfold StoreWorld.runs at hnext
  split_ifs at hnext with hup
  simpa using hup

/-- **The step lemma.** -/
theorem Closed.next (h : Closed C w) {a : StoreMove σ ι} (hok : Closes C w a)
    (hnext : w.next C cfg a = some w') : Closed C w' := by
  cases a with
  | opens adopt io =>
    have hends := reconcile_ends (h.resting.restarted adopt) io
    change w.opens C adopt io = some w' at hnext
    unfold StoreWorld.opens at hnext
    unfold Ends at hends
    split_ifs at hnext
    generalize reconcile C io (w.store.restarted C adopt) = r at hnext hends
    obtain ⟨o, s⟩ := r
    cases o with
    | returned a =>
      obtain rfl := Option.some.inj hnext
      exact Serving.world hends (by simp)
    | thrown e | died =>
      obtain rfl := Option.some.inj hnext
      exact Resting.world hends
  | putBlob sha body declaredSize io =>
    refine closed_runs ((putBlob_ends (h.up (up_of_runs hnext)) sha body declaredSize
      (h.there _)).imp fun _ t ht => ⟨ht.1, fun path hp => ?_⟩) hnext
    rw [List.mem_singleton.1 hp]
    exact ht.2
  | registerManifest job content io =>
    obtain ⟨hwrite, hremove, hstray⟩ := hok
    refine closed_runs ((registerManifest_closed (h.up (up_of_runs hnext)) (h.there _) hwrite
      hremove hstray).imp fun _ t ht => ⟨ht, fun path hp hhas => ?_⟩) hnext
    rw [List.mem_singleton.1 hp] at hhas ⊢
    obtain ⟨c, hc⟩ := Option.isSome_iff_exists.1 hhas
    exact ht.manifests job c hc
  | setJobState job field io =>
    exact closed_runs_none (setJobState_closed (h.up (up_of_runs hnext)) job field) hnext
  | deleteObject path io =>
    have hends := deleteObject_closed (h.up (up_of_runs hnext)) hok
    exact closed_runs_none (hends.mono (fun _ _ ht => ht.1) (fun _ _ ht => ht.1) fun _ ht => ht) hnext
  | sweep times io =>
    exact closed_runs_none (sweep_ends (h.up (up_of_runs hnext)) times _ hok) hnext
  | rejournal paths io =>
    exact closed_runs_none (rejournal_ends (h.up (up_of_runs hnext)) paths io hok) hnext
  | maintain io =>
    exact closed_runs_none ((flushPendingDeletes_ends (h.up (up_of_runs hnext))).mono
      (fun _ _ ht => ht.1) (fun _ _ ht => ht.1) fun _ ht => ht) hnext
  | tick now =>
    obtain rfl := Option.some.inj hnext
    refine ⟨fun path hp => (has_congr rfl rfl path).trans (h.there path hp),
      fun hup => (h.up hup).of_eq rfl rfl rfl rfl rfl rfl rfl rfl, h.resting.intact,
      h.resting.fits.of_eq rfl rfl, fun f hf => (h.resting.stray f hf).of_eq rfl rfl⟩
  | dies =>
    change (if w.up then some { w with up := false } else none) = some w' at hnext
    split_ifs at hnext
    obtain rfl := Option.some.inj hnext
    exact ⟨h.there, fun hup => (by cases hup), h.resting⟩
  | powerLoss blobs manifests metas =>
    obtain rfl := Option.some.inj hnext
    obtain ⟨hintact, hrestores⟩ := hok
    have hfits : ∀ js, Restores C w.store { w.store with blobs, manifests, metas } js →
        Fits C w.acknowledged w.store js →
          Fits C w.acknowledged { w.store with blobs, manifests, metas } js := by
      intro js hr hf
      refine ⟨hf.closed, fun job c hc => ?_, fun path hp _ => hf.acknowledged path hp (h.there path hp),
        hf.puts, fun path hhas hint => ?_⟩
      · rcases hr.manifests job c hc with hold | hput
        · exact hf.manifests job c hold
        · exact hput
      · rcases hr.intended path hhas with hold | hput | hstate
        · exact hf.intended path hold hint
        · exact hput
        · exact absurd hint hstate
    refine Resting.world ⟨hintact, ?_, fun f hf => ?_⟩
    · exact hfits _ (hrestores _ (.inl rfl)) h.resting.fits
    · exact hfits _ (hrestores _ (.inr ⟨f, hf, rfl⟩)) (h.resting.stray f hf)

/-- **In every run of such steps** the journal has the blobs of a manifest before the manifest, and
whatever was acknowledged and is still there has been put. -/
theorem journal_closed (h : (storeMachine C cfg).Reach (Closes C) w) :
    PrefixClosed C w.store.journal ∧
      ∀ path ∈ w.acknowledged, w.store.has path = true → HasPut w.store.journal path := by
  have hclosed : Closed C w := by
    refine h.invariant (P := Closed C) (fun w hw => ?_) fun w a w' hs hok hnext => hs.next hok hnext
    obtain rfl := hw
    have hfits : Fits C [] ({} : ObjectStore σ ι) [] := by
      constructor
      · exact prefixClosed_nil
      · exact fun _ _ hc => by cases hc
      · exact fun _ hp => by cases hp
      · exact fun _ hput => by cases hput
      · exact fun _ _ hint => by cases hint
    constructor
    · exact fun _ hp => by cases hp
    · exact fun hup => by cases hup
    · have hintact : BlobsIntact ({} : ObjectStore σ ι) := fun _ _ hf => by cases hf
      exact ⟨hintact, hfits, fun _ hf => by cases hf⟩
  exact ⟨hclosed.resting.fits.closed, fun path hp hhas => hclosed.resting.fits.acknowledged path hp hhas⟩

end Runs

/-- An upload whose record fails at first, a registration, and a new process. -/
def uploadsTwice : List (StoreMove Nat Unit) :=
  [.opens true allOk, .putBlob 0 0 1 (failsAt (.append (.put (.blob 0) 0 1)) .fails),
    .putBlob 0 0 1 allOk, .registerManifest () 10 allOk, .dies, .opens true allOk]

/-- The blob is put before the manifest. -/
theorem journal_closed_retried : ∃ w : StoreWorld Nat Unit,
    (storeMachine smallContents smallConfig).Reach (Closes smallContents) w ∧
      w.store.journal = [.put (.blob 0) 0 1, .put (.manifest ()) 10 1] ∧
        .manifest () ∈ w.acknowledged ∧ w.store.has (.manifest ()) = true ∧
          PrefixClosed smallContents w.store.journal ∧
            HasPut w.store.journal (.manifest ()) := by
  have hok : (storeMachine smallContents smallConfig).Along (Closes smallContents) {}
      uploadsTwice := by
    refine Machine.along_of_check (fun w a =>
      match a with
      | .registerManifest job _ io => w.store.stray.isNone && io (.writeManifest job) = .ok &&
          io (.removeManifest job) = .ok
      | .deleteObject _ _ | .sweep _ _ | .rejournal _ _ | .powerLoss _ _ _ => false
      | _ => true) (fun w a h => ?_) _ (by decide +kernel)
    cases a with
    | registerManifest job content io =>
      simp only [Bool.and_eq_true, decide_eq_true_eq] at h
      obtain ⟨⟨hstray, hwrite⟩, hremove⟩ := h
      refine ⟨by simp [hwrite], by simp [hremove], .inl fun d _ sha _ heq => ?_⟩
      rw [heq] at hstray
      cases hstray
    | deleteObject _ _ | sweep _ _ | rejournal _ _ | powerLoss _ _ _ => cases h
    | _ => trivial
  obtain ⟨w, hw, hp⟩ := Machine.exists_reach_of_exec (storeMachine smallContents smallConfig)
    {} uploadsTwice
    (fun w => decide (w.store.journal = [.put (.blob 0) 0 1, .put (.manifest ()) 10 1] ∧
      .manifest () ∈ w.acknowledged ∧ w.store.has (.manifest ()) = true))
    rfl hok (by decide +kernel)
  obtain ⟨hjournal, hacked, hhas⟩ := of_decide_eq_true hp
  obtain ⟨hclosed, hput⟩ := journal_closed hw
  exact ⟨w, hw, hjournal, hacked, hhas, hclosed, hput _ hacked hhas⟩

/-- A registration fails as its manifest is synced, and is tried again. -/
def registersTwice : List (StoreMove Nat Unit) :=
  [.opens true allOk, .putBlob 0 0 1 allOk,
    .registerManifest () 10 (failsAt (.writeManifest ()) .failsLate),
    .registerManifest () 10 allOk]

/-- The manifest of a terminal job is journaled again when its blob is gone. -/
def journalsAgain : List (StoreMove Nat Unit) :=
  [.opens true allOk, .putBlob 0 0 1 allOk, .registerManifest () 10 allOk,
    .setJobState () (.terminalAt 5) allOk, .deleteObject (.blob 0) allOk,
    .rejournal [.manifest ()] allOk]

/-- A blob that could be neither journaled nor taken back is about to be deleted when the unlink
fails; the next process takes it for journaled, and acknowledges it. -/
def announcesOnly : List (StoreMove Nat Unit) :=
  [.opens true allOk,
    .putBlob 0 0 1 fun c => if c = .append (.put (.blob 0) 0 1) ∨ c = .unlink (.blob 0) then .fails
      else .ok,
    .deleteObject (.blob 0) (failsAt (.unlink (.blob 0)) .fails), .dies, .opens true allOk,
    .putBlob 0 0 1 allOk]

/-- **A manifest and a blob can be acknowledged without a record**, and a manifest can come behind
the deletion of its blob. -/
theorem journal_not_closed :
    (∃ w : StoreWorld Nat Unit,
      (storeMachine smallContents smallConfig).Reach (fun _ _ => True) w ∧
        .manifest () ∈ w.acknowledged ∧ w.store.has (.manifest ()) = true ∧
          ¬HasPut w.store.journal (.manifest ())) ∧
      (∃ w : StoreWorld Nat Unit,
        (storeMachine smallContents smallConfig).Reach (fun _ _ => True) w ∧
          ¬PrefixClosed smallContents w.store.journal) ∧
        ∃ w : StoreWorld Nat Unit,
          (storeMachine smallContents smallConfig).Reach (fun _ _ => True) w ∧
            .blob 0 ∈ w.acknowledged ∧ w.store.has (.blob 0) = true ∧
              ¬HasPut w.store.journal (.blob 0) := by
  have hnone : ∀ {js : List (Fields Nat Unit)} {path : Path Nat Unit},
      (∀ f ∈ js, ∀ c n, f ≠ .put path c n) → ¬HasPut js path := by
    rintro js path h ⟨before, c, n, after, rfl, -⟩
    exact h (.put path c n) (by simp) c n rfl
  refine ⟨?_, ?_, ?_⟩
  · obtain ⟨w, hw, hp⟩ := Machine.exists_reach_of_exec (storeMachine smallContents smallConfig)
      {} registersTwice
      (fun w => decide (w.store.journal = [.put (.blob 0) 0 1] ∧ .manifest () ∈ w.acknowledged ∧
        w.store.has (.manifest ()) = true))
      rfl (Machine.along_of_forall (fun _ _ => trivial) _ _) (by decide +kernel)
    obtain ⟨hjournal, hacked, hhas⟩ := of_decide_eq_true hp
    exact ⟨w, hw, hacked, hhas, hnone (by simp [hjournal])⟩
  · obtain ⟨w, hw, hp⟩ := Machine.exists_reach_of_exec (storeMachine smallContents smallConfig)
      {} journalsAgain
      (fun w => decide (w.store.journal = [.put (.blob 0) 0 1, .put (.manifest ()) 10 1,
        .terminal () 5, .deleteIntent (.blob 0), .delete (.blob 0), .put (.manifest ()) 10 1]))
      rfl (Machine.along_of_forall (fun _ _ => trivial) _ _) (by decide +kernel)
    refine ⟨w, hw, fun hclosed => ?_⟩
    rw [of_decide_eq_true hp] at hclosed
    have hblobs := hclosed [.put (.blob 0) 0 1, .put (.manifest ()) 10 1, .terminal () 5,
      .deleteIntent (.blob 0), .delete (.blob 0)] () 10 1 [] rfl
    exact absurd (hblobs { manifestHash := 10, files := [(0, 1)] } rfl 0 (by simp [Doc.blobs])).2
      (by decide)
  · obtain ⟨w, hw, hp⟩ := Machine.exists_reach_of_exec (storeMachine smallContents smallConfig)
      {} announcesOnly
      (fun w => decide (w.store.journal = [.deleteIntent (.blob 0), .deleteCancel (.blob 0)] ∧
        .blob 0 ∈ w.acknowledged ∧ w.store.has (.blob 0) = true))
      rfl (Machine.along_of_forall (fun _ _ => trivial) _ _) (by decide +kernel)
    obtain ⟨hjournal, hacked, hhas⟩ := of_decide_eq_true hp
    exact ⟨w, hw, hacked, hhas, hnone (by simp [hjournal])⟩

end Store
end LaneBroker
