/-
# What the store keeps in memory, and the disk

A process counts the bytes of its objects and keeps in mind which blobs are not journaled,
which deletions are not, which intents stand and which blobs a manifest references.
`Accounted` says that all of this is true of the disk and of the journal, and
`accounts_after_throw` says exactly when it still is after an operation threw.

An operation that goes wrong between two changes leaves one of the structures behind.  Each
such state is described by what would have to be corrected in it for it to be accounted for
again; it is accounted for as it is when there was nothing to correct.
-/

import LaneBroker.Store.ClosureSteps

namespace LaneBroker
namespace Store

open LaneBroker.Basis Fallible

variable {σ ι : Type} [DecidableEq σ] [DecidableEq ι] (C : Contents σ) (cfg : Config)

/-- **A live record**: the last one of the path is a put or an intent. -/
def Live (js : List (Fields σ ι)) (path : Path σ ι) : Prop :=
  objectState js path = some .put ∨ objectState js path = some .intent

/-- **The memory is true of the disk and the journal.**  A corrupt blob is no object; what is gone
and has a put record is a pending deletion, or was found missing when the store was opened. -/
structure Accounted (s : ObjectStore σ ι) : Prop where
  blobsOnce : s.blobs.Once
  manifestsOnce : s.manifests.Once
  bytes : s.bytes = s.diskBytes C
  blobs : ∀ sha, s.contentAt (.blob sha) = some sha →
    Live s.journal (.blob sha) ∨ sha ∈ s.unjournaled
  manifests : ∀ job content, s.contentAt (.manifest job) = some content →
    Live s.journal (.manifest job)
  gone : ∀ path, s.contentAt path = none → objectState s.journal path = some .put →
    path ∈ s.pendingDeletes ∨ path ∈ s.lost
  intents : ∀ path, objectState s.journal path = some .intent → path ∈ s.intents
  pending : ∀ path ∈ s.pendingDeletes, s.contentAt path = none
  cache : ∀ e ∈ s.jobBlobCache, ∃ d, s.docOf C e.1 = some d ∧ e.2 = d.blobs

variable {C cfg} {s t u : ObjectStore σ ι} {io : Io σ ι}

/-! ### Steps of the journal and of the memory -/

section Steps

theorem mem_addTo {α : Type} [DecidableEq α] {l : List α} {a b : α} :
    b ∈ addTo l a ↔ b ∈ l ∨ b = a := by
  unfold addTo
  split_ifs with h
  · exact ⟨.inl, fun hb => hb.elim id fun heq => heq ▸ h⟩
  · simp

theorem mem_removeFrom {α : Type} [DecidableEq α] {l : List α} {a b : α} :
    b ∈ removeFrom l a ↔ b ∈ l ∧ b ≠ a := by
  simp [removeFrom]

/-- **The objects are the same.** -/
structure SameObjects (s t : ObjectStore σ ι) : Prop where
  blobs : t.blobs = s.blobs
  manifests : t.manifests = s.manifests

theorem contentAt_congr (h : SameObjects s t) (path : Path σ ι) : t.contentAt path = s.contentAt path := by
  cases path with
  | blob sha => simp [ObjectStore.contentAt, h.blobs]
  | manifest job => simp [ObjectStore.contentAt, h.manifests]

omit [DecidableEq σ] [DecidableEq ι] in
/-- The bytes of the blobs and of the manifests. -/
theorem diskBytes_eq (s : ObjectStore σ ι) :
    s.diskBytes C = s.blobs.total (fun f => (C.sizeOf f.content : Int)) +
      s.manifests.total fun c => (C.sizeOf c : Int) := rfl

omit [DecidableEq σ] [DecidableEq ι] in
theorem diskBytes_congr (h : SameObjects s t) : t.diskBytes C = s.diskBytes C := by
  simp [ObjectStore.diskBytes, h.blobs, h.manifests]

/-- **A step that leaves the files and the bytes alone.** -/
theorem Accounted.of_sameObjects (h : Accounted C s) (hfiles : SameObjects s t)
    (hbytes : t.bytes = s.bytes) (hcache : t.jobBlobCache = s.jobBlobCache)
    (hblobs : ∀ sha, s.contentAt (.blob sha) = some sha →
      Live t.journal (.blob sha) ∨ sha ∈ t.unjournaled)
    (hmanifests : ∀ job content, s.contentAt (.manifest job) = some content →
      Live t.journal (.manifest job))
    (hgone : ∀ path, s.contentAt path = none → objectState t.journal path = some .put →
      path ∈ t.pendingDeletes ∨ path ∈ t.lost)
    (hintents : ∀ path, objectState t.journal path = some .intent → path ∈ t.intents)
    (hpending : ∀ path ∈ t.pendingDeletes, s.contentAt path = none) : Accounted C t where
  blobsOnce := hfiles.blobs ▸ h.blobsOnce
  manifestsOnce := hfiles.manifests ▸ h.manifestsOnce
  bytes := by rw [hbytes, h.bytes, diskBytes_congr hfiles]
  blobs sha hsha := hblobs sha (contentAt_congr hfiles _ ▸ hsha)
  manifests job content hc := hmanifests job content (contentAt_congr hfiles _ ▸ hc)
  gone path hc := hgone path (contentAt_congr hfiles _ ▸ hc)
  intents := hintents
  pending path hp := (contentAt_congr hfiles path).trans (hpending path hp)
  cache e he := by
    rw [docOf_congr hfiles.manifests]
    exact h.cache e (hcache ▸ he)

/-- A step that changes nothing that is accounted for. -/
theorem Accounted.of_eq (h : Accounted C s) (hfiles : SameObjects s t) (hbytes : t.bytes = s.bytes)
    (hcache : t.jobBlobCache = s.jobBlobCache) (hjournal : t.journal = s.journal)
    (hunjournaled : t.unjournaled = s.unjournaled) (hpending : t.pendingDeletes = s.pendingDeletes)
    (hintents : t.intents = s.intents) (hlost : t.lost = s.lost) : Accounted C t := by
  refine h.of_sameObjects hfiles hbytes hcache ?_ ?_ ?_ ?_ ?_
  · rw [hjournal, hunjournaled]
    exact h.blobs
  · rw [hjournal]
    exact h.manifests
  · rw [hjournal, hpending, hlost]
    exact h.gone
  · rw [hjournal, hintents]
    exact h.intents
  · rw [hpending]
    exact h.pending

/-- **A record that is true of the disk**: a put of what is there, a deletion of what is gone. -/
def TrueOf (s : ObjectStore σ ι) (f : Fields σ ι) : Prop :=
  ∀ path st, f.object = some (path, st) →
    st = .put ∧ s.contentAt path ≠ none ∨ st = .delete ∧ s.contentAt path = none

theorem trueOf_put {path : Path σ ι} (h : s.contentAt path ≠ none) (content : σ) (size : Nat) :
    TrueOf s (.put path content size) := by
  intro q st hq
  obtain ⟨rfl, rfl⟩ := Prod.mk.inj (Option.some.inj hq)
  exact .inl ⟨rfl, h⟩

theorem trueOf_deleteCancel {path : Path σ ι} (h : s.contentAt path ≠ none) :
    TrueOf s (.deleteCancel path) := by
  intro q st hq
  obtain ⟨rfl, rfl⟩ := Prod.mk.inj (Option.some.inj hq)
  exact .inl ⟨rfl, h⟩

theorem trueOf_delete {path : Path σ ι} (h : s.contentAt path = none) :
    TrueOf s (.delete path) := by
  intro q st hq
  obtain ⟨rfl, rfl⟩ := Prod.mk.inj (Option.some.inj hq)
  exact .inr ⟨rfl, h⟩

theorem trueOf_record (job : ι) (field : StateField) : TrueOf s (field.record job : Fields σ ι) := by
  intro q st hq
  cases field <;> cases hq

/-- **A record more.** -/
theorem Accounted.recorded (h : Accounted C s) {f : Fields σ ι} (hf : TrueOf s f) :
    Accounted C { s with journal := s.journal ++ [f] } := by
  have hcases := objectState_concat_cases s.journal f
  have hlive : ∀ path, s.contentAt path ≠ none → Live s.journal path →
      Live (s.journal ++ [f]) path := by
    intro path hthere hlive
    rcases hcases path with heq | ⟨st, hst, heq⟩
    · exact hlive.imp heq.trans heq.trans
    · rcases hf path st hst with ⟨rfl, -⟩ | ⟨rfl, hgone⟩
      · exact .inl heq
      · exact absurd hgone hthere
  refine h.of_sameObjects ⟨rfl, rfl⟩ rfl rfl (fun sha hsha => ?_) (fun job content hc => ?_)
    (fun path hgone hput => ?_) (fun path hintent => ?_) h.pending
  · exact (h.blobs sha hsha).imp_left (hlive _ (by rw [hsha]; nofun))
  · exact hlive _ (by rw [hc]; nofun) (h.manifests job content hc)
  · rcases hcases path with heq | ⟨st, hst, heq⟩
    · exact h.gone path hgone (heq.symm.trans hput)
    · rcases hf path st hst with ⟨rfl, hthere⟩ | ⟨rfl, -⟩
      · exact absurd hgone hthere
      · cases heq.symm.trans hput
  · rcases hcases path with heq | ⟨st, hst, heq⟩
    · exact h.intents path (heq.symm.trans hintent)
    · rcases hf path st hst with ⟨rfl, -⟩ | ⟨rfl, -⟩ <;> cases heq.symm.trans hintent

/-- **The intent of a deletion**, which is kept in mind. -/
theorem Accounted.intended (h : Accounted C s) {path : Path σ ι} (hthere : s.contentAt path ≠ none) :
    Accounted C
      { s with journal := s.journal ++ [.deleteIntent path], intents := addTo s.intents path } := by
  have hcases := objectState_concat_cases s.journal (.deleteIntent path)
  have hself : ∀ q st, (Fields.deleteIntent path : Fields σ ι).object = some (q, st) →
      q = path ∧ st = .intent := by
    intro q st hq
    obtain ⟨rfl, rfl⟩ := Prod.mk.inj (Option.some.inj hq)
    exact ⟨rfl, rfl⟩
  have hlive : ∀ q, Live s.journal q → Live (s.journal ++ [.deleteIntent path]) q := by
    intro q hlive
    rcases hcases q with heq | ⟨st, hst, heq⟩
    · exact hlive.imp heq.trans heq.trans
    · obtain ⟨-, rfl⟩ := hself q st hst
      exact .inr heq
  refine h.of_sameObjects ⟨rfl, rfl⟩ rfl rfl (fun sha hsha => (h.blobs sha hsha).imp_left (hlive _))
    (fun job content hc => hlive _ (h.manifests job content hc)) (fun q hgone hput => ?_)
    (fun q hintent => ?_) h.pending
  · rcases hcases q with heq | ⟨st, hst, heq⟩
    · exact h.gone q hgone (heq.symm.trans hput)
    · obtain ⟨rfl, rfl⟩ := hself q st hst
      exact absurd hgone hthere
  · rcases hcases q with heq | ⟨st, hst, heq⟩
    · exact mem_addTo.2 (.inl (h.intents q (heq.symm.trans hintent)))
    · exact mem_addTo.2 (.inr (hself q st hst).1)

/-- A deletion that is journaled need not be kept in mind. -/
theorem Accounted.flushed (h : Accounted C s) (path : Path σ ι)
    (hdeleted : objectState s.journal path ≠ some .put) :
    Accounted C { s with pendingDeletes := removeFrom s.pendingDeletes path } := by
  refine h.of_sameObjects ⟨rfl, rfl⟩ rfl rfl h.blobs h.manifests (fun q hgone hput => ?_) h.intents
    fun q hq => h.pending q (mem_removeFrom.1 hq).1
  refine (h.gone q hgone hput).imp_left fun hp => mem_removeFrom.2 ⟨hp, ?_⟩
  rintro rfl
  exact hdeleted hput

/-- An intent that does not stand need not be kept in mind. -/
theorem Accounted.settled (h : Accounted C s) (path : Path σ ι)
    (hsettled : objectState s.journal path ≠ some .intent) :
    Accounted C { s with intents := removeFrom s.intents path } := by
  refine h.of_sameObjects ⟨rfl, rfl⟩ rfl rfl h.blobs h.manifests h.gone (fun q hq => ?_) h.pending
  refine mem_removeFrom.2 ⟨h.intents q hq, ?_⟩
  rintro rfl
  exact hsettled hq

/-- A blob that is journaled need not be kept in mind. -/
theorem Accounted.journaled (h : Accounted C s) (sha : σ) (hlive : Live s.journal (.blob sha)) :
    Accounted C { s with unjournaled := removeFrom s.unjournaled sha } := by
  refine h.of_sameObjects ⟨rfl, rfl⟩ rfl rfl (fun sha' hc => ?_) h.manifests h.gone h.intents
    h.pending
  rcases h.blobs sha' hc with hl | hu
  · exact .inl hl
  · by_cases heq : sha' = sha
    · exact .inl (heq ▸ hlive)
    · exact .inr (mem_removeFrom.2 ⟨hu, heq⟩)

/-- What is there, or has no put record, is not lost. -/
theorem Accounted.found (h : Accounted C s) (path : Path σ ι) (hthere : s.contentAt path ≠ none) :
    Accounted C { s with lost := removeFrom s.lost path } := by
  refine h.of_sameObjects ⟨rfl, rfl⟩ rfl rfl h.blobs h.manifests (fun q hgone hput => ?_) h.intents
    h.pending
  refine (h.gone q hgone hput).imp_right fun hl => mem_removeFrom.2 ⟨hl, ?_⟩
  rintro rfl
  exact hthere hgone

theorem objectState_concat_of_ne {js : List (Fields σ ι)} {f : Fields σ ι} {q : Path σ ι}
    (h : ∀ st, f.object ≠ some (q, st)) : objectState (js ++ [f]) q = objectState js q := by
  rcases objectState_concat_cases js f q with heq | ⟨st, hst, -⟩
  · exact heq
  · exact absurd hst (h st)

theorem contentAt_stamped {sha : σ} {f : BlobFile σ} (hf : s.blobs.read sha = some f) (at' : Int)
    (path : Path σ ι) :
    { s with blobs := s.blobs.write sha { f with mtime := at' } }.contentAt path =
      s.contentAt path := by
  cases path with
  | manifest job => rfl
  | blob sha' =>
    simp only [ObjectStore.contentAt, Dir.read_write]
    split_ifs with h
    · rw [h, hf]
      rfl
    · rfl

/-- **Stamping a blob** changes nothing that is accounted for. -/
theorem Accounted.stamped (h : Accounted C s) {sha : σ} {f : BlobFile σ}
    (hf : s.blobs.read sha = some f) (at' : Int) :
    Accounted C { s with blobs := s.blobs.write sha { f with mtime := at' } } := by
  have hcontents := contentAt_stamped hf at'
  have htotal := Dir.total_unlink (fun f => (C.sizeOf f.content : Int)) h.blobsOnce sha
  refine
    { blobsOnce := h.blobsOnce.write _ _
      manifestsOnce := h.manifestsOnce
      bytes := ?_
      blobs := fun sha' hsha => h.blobs sha' (hcontents _ ▸ hsha)
      manifests := fun job content hc => h.manifests job content hc
      gone := fun path hc => h.gone path (hcontents path ▸ hc)
      intents := h.intents
      pending := fun path hp => (hcontents path).trans (h.pending path hp)
      cache := h.cache }
  change s.bytes = _
  rw [h.bytes, diskBytes_eq, diskBytes_eq, Dir.total_write, ← htotal, hf]
  rfl

end Steps

/-! ### What an operation does on its way -/

variable (C) in
/-- **Nothing is stored or removed**, and the memory is true. -/
structure Steady (s t : ObjectStore σ ι) : Prop where
  accounted : Accounted C t
  contents : ∀ path, t.contentAt path = s.contentAt path
  reserved : t.reserved = s.reserved

variable (C) in
/-- **The operation goes on**, with records of some paths only. -/
structure Going (touched : Path σ ι → Prop) (s t : ObjectStore σ ι) : Prop extends Steady C s t where
  states : ∀ path, ¬ touched path → objectState t.journal path = objectState s.journal path
  lost : t.lost = s.lost
  broken : t.broken = s.broken
  now : t.now = s.now
  cache : t.jobBlobCache = s.jobBlobCache

section Frames

variable {touched touched' : Path σ ι → Prop}

theorem Steady.refl (h : Accounted C s) : Steady C s s := ⟨h, fun _ => rfl, rfl⟩

theorem Steady.trans (h : Steady C s t) (h' : Steady C t u) : Steady C s u :=
  ⟨h'.accounted, fun path => (h'.contents path).trans (h.contents path),
    h'.reserved.trans h.reserved⟩

theorem Going.refl (h : Accounted C s) : Going C touched s s :=
  ⟨.refl h, fun _ _ => rfl, rfl, rfl, rfl, rfl⟩

theorem Going.trans (h : Going C touched s t) (h' : Going C touched t u) : Going C touched s u :=
  ⟨h.toSteady.trans h'.toSteady, fun path hp => (h'.states path hp).trans (h.states path hp),
    h'.lost.trans h.lost, h'.broken.trans h.broken, h'.now.trans h.now, h'.cache.trans h.cache⟩

theorem Going.mono (h : Going C touched s t) (himp : ∀ path, touched path → touched' path) :
    Going C touched' s t :=
  ⟨h.toSteady, fun path hp => h.states path fun hp' => hp (himp path hp'), h.lost, h.broken, h.now,
    h.cache⟩

/-- The objects are the same, and so is what is accounted for. -/
theorem Steady.of_sameObjects (h : Accounted C t) (hfiles : SameObjects s t)
    (hreserved : t.reserved = s.reserved) : Steady C s t :=
  ⟨h, contentAt_congr hfiles, hreserved⟩

end Frames

/-! ### Journaling -/

omit [DecidableEq σ] [DecidableEq ι] in
/-- **The rule for an append.** -/
theorem ends_append {f : Fields σ ι} {R : Unit → ObjectStore σ ι → Prop}
    {T : StoreError σ → ObjectStore σ ι → Prop}
    (hok : s.broken = false → io (.append f) = .ok → R () { s with journal := s.journal ++ [f] })
    (hbroken : s.broken = true → T .journalBroken s)
    (hfails : io (.append f) = .fails → T .io s)
    (hlate : io (.append f) = .failsLate → T .io { s with broken := true, stray := some f }) :
    Ends io (append f) s R T fun _ => True := by
  unfold append Ends
  dsimp only
  split_ifs with hb
  · exact hbroken hb
  · cases hio : io (.append f) with
    | ok => exact hok (by simpa using hb) hio
    | fails => exact hfails hio
    | failsLate => exact hlate hio
    | dies => trivial

/-- The journal cannot be used, or the append fails. -/
def AppendFails (io : Io σ ι) (s : ObjectStore σ ι) (f : Fields σ ι) : Prop :=
  s.broken = true ∨ (io (.append f)).Throws

/-- **An append in an accounted store.** -/
theorem append_accounted (h : Accounted C s) (f : Fields σ ι) :
    Ends io (append f) s
      (fun _ t => t = { s with journal := s.journal ++ [f] } ∧ ¬ AppendFails io s f)
      (fun _ t => Steady C s t ∧ t.lost = s.lost ∧ t.journal = s.journal ∧
        t.pendingDeletes = s.pendingDeletes ∧ AppendFails io s f) fun _ => True := by
  have hlate : Steady C s { s with broken := true, stray := some f } :=
    .of_sameObjects (h.of_eq ⟨rfl, rfl⟩ rfl rfl rfl rfl rfl rfl rfl) ⟨rfl, rfl⟩ rfl
  refine ends_append (fun hb hio => ⟨rfl, ?_⟩) (fun hb => ⟨.refl h, rfl, rfl, rfl, .inl hb⟩)
    (fun hio => ⟨.refl h, rfl, rfl, rfl, .inr (.inl hio)⟩)
    fun hio => ⟨hlate, rfl, rfl, rfl, .inr (.inr hio)⟩
  simp [AppendFails, Answer.Throws, hb, hio]

/-- **A record of what is so.** -/
theorem record_accounted (h : Accounted C s) {f : Fields σ ι} (hf : TrueOf s f) (touched : Path σ ι → Prop)
    (htouched : ∀ path st, f.object = some (path, st) → touched path) :
    Ends io (append f) s
      (fun _ t => t = { s with journal := s.journal ++ [f] } ∧ Going C touched s t)
      (fun _ t => Steady C s t) fun _ => True := by
  refine (append_accounted h f).mono (fun _ t ht => ?_) (fun _ _ ht => ht.1) fun _ h => h
  obtain ⟨rfl, hfails⟩ := ht
  refine ⟨rfl, .of_sameObjects (h.recorded hf) ⟨rfl, rfl⟩ rfl, fun path hp => ?_, rfl, rfl, rfl, rfl⟩
  exact objectState_concat_of_ne fun st hst => hp (htouched path st hst)

theorem journalDelete_accounted (h : Accounted C s) {path : Path σ ι}
    (hgone : s.contentAt path = none) :
    Ends io (journalDelete path) s
      (fun _ t => Going C (· = path) s t ∧
        t.pendingDeletes = removeFrom s.pendingDeletes path ∧
        objectState t.journal path = some .delete)
      (fun _ t => Steady C s t) fun _ => True := by
  refine (record_accounted h (trueOf_delete hgone) (· = path) ?_).bind fun _ t ht => ?_
  · intro q st hq
    exact (Prod.mk.inj (Option.some.inj hq)).1.symm
  · obtain ⟨rfl, hgoing⟩ := ht
    have hstate : objectState (s.journal ++ [.delete path]) path = some .delete := by
      simp [Fields.stateOf, Fields.object]
    refine ⟨⟨.of_sameObjects ?_ ⟨rfl, rfl⟩ rfl, hgoing.states, rfl, rfl, rfl, rfl⟩, rfl, hstate⟩
    exact hgoing.accounted.flushed path (by rw [hstate]; simp)

/-- **`flushPendingDeletes`**: what is pending is journaled. -/
theorem flush_accounted (h : Accounted C s) :
    Ends io flushPendingDeletes s
      (fun _ t => Going C (· ∈ s.pendingDeletes) s t ∧ t.pendingDeletes = [] ∧
        ∀ path ∈ s.pendingDeletes, objectState t.journal path = some .delete)
      (fun _ t => Steady C s t) fun _ => True := by
  refine ends_bind.2 (ends_get.2 ?_)
  refine (ends_forM_each (I := fun t => Going C (· ∈ s.pendingDeletes) s t ∧
      t.pendingDeletes ⊆ s.pendingDeletes)
    (Q := fun path t => path ∉ t.pendingDeletes ∧ objectState t.journal path = some .delete)
    s.pendingDeletes (fun path hp t ht => ?_) ⟨.refl h, fun _ hp => hp⟩).imp fun _ t ht => ?_
  · obtain ⟨hgoing, hsub⟩ := ht
    have hgone := (hgoing.contents path).trans (h.pending path hp)
    refine (journalDelete_accounted hgoing.accounted hgone).mono (fun _ u hu => ?_)
      (fun _ u hu => hgoing.toSteady.trans hu) fun _ h => h
    obtain ⟨hstep, hpending, hstate⟩ := hu
    refine ⟨⟨hgoing.trans (hstep.mono fun q hq => hq ▸ hp), fun q hq => ?_⟩, ⟨?_, hstate⟩,
      fun q hq => ⟨?_, ?_⟩⟩
    · exact hsub (mem_removeFrom.1 (hpending ▸ hq)).1
    · rw [hpending]
      exact fun hin => (mem_removeFrom.1 hin).2 rfl
    · rw [hpending]
      exact fun hin => hq.1 (mem_removeFrom.1 hin).1
    · by_cases heq : q = path
      · rw [heq, hstate]
      · rw [hstep.states q heq, hq.2]
  · obtain ⟨⟨hgoing, hsub⟩, hdone⟩ := ht
    refine ⟨hgoing, List.eq_nil_iff_forall_not_mem.2 fun path hp => ?_, fun path hp => (hdone path hp).2⟩
    exact (hdone path (hsub hp)).1 hp

theorem journalBlob_accounted (h : Accounted C s) {sha : σ}
    (hthere : s.contentAt (.blob sha) ≠ none) :
    Ends io (journalBlob C sha) s
      (fun _ t => Going C (· = .blob sha) s t ∧ t.pendingDeletes = s.pendingDeletes)
      (fun _ t => Steady C s t) fun _ => True := by
  refine ends_ask_bind ?_ (.refl h) trivial
  generalize (s.sizeOnDisk C (.blob sha)).getD 0 = size
  refine (record_accounted h (trueOf_put hthere sha size) (· = .blob sha) ?_).bind
    fun _ t ht => ?_
  · intro q st hq
    exact (Prod.mk.inj (Option.some.inj hq)).1.symm
  · obtain ⟨rfl, hgoing⟩ := ht
    have hstate : objectState (s.journal ++ [.put (.blob sha) sha size]) (.blob sha) = some .put := by
      simp [Fields.stateOf, Fields.object]
    refine ⟨⟨.of_sameObjects ?_ ⟨rfl, rfl⟩ rfl, hgoing.states, rfl, rfl, rfl, rfl⟩, rfl⟩
    exact hgoing.accounted.journaled sha (.inl hstate)

theorem journalIfNeeded_accounted (h : Accounted C s) (sha : σ)
    (hthere : s.contentAt (.blob sha) ≠ none) :
    Ends io (journalIfNeeded C sha) s
      (fun _ t => Going C (· = .blob sha) s t ∧ t.pendingDeletes = s.pendingDeletes)
      (fun _ t => Steady C s t) fun _ => True := by
  refine ends_bind.2 (ends_get.2 ?_)
  split_ifs
  · exact journalBlob_accounted h hthere
  · exact ⟨.refl h, rfl⟩

theorem cancelIntent_accounted (h : Accounted C s) (path : Path σ ι)
    (hthere : s.contentAt path ≠ none) :
    Ends io (cancelIntent path) s
      (fun _ t => Going C (· = path) s t ∧ t.pendingDeletes = s.pendingDeletes)
      (fun _ t => Steady C s t) fun _ => True := by
  refine ends_bind.2 (ends_get.2 ?_)
  split_ifs
  · refine (record_accounted h (trueOf_deleteCancel hthere) (· = path) ?_).bind
      fun _ t ht => ?_
    · intro q st hq
      exact (Prod.mk.inj (Option.some.inj hq)).1.symm
    · obtain ⟨rfl, hgoing⟩ := ht
      have hstate : objectState (s.journal ++ [.deleteCancel path]) path = some .put := by
        simp [Fields.stateOf, Fields.object]
      refine ⟨⟨.of_sameObjects ?_ ⟨rfl, rfl⟩ rfl, hgoing.states, rfl, rfl, rfl, rfl⟩, rfl⟩
      exact hgoing.accounted.settled path (by rw [hstate]; simp)
  · exact ⟨.refl h, rfl⟩

theorem stamp_accounted (h : Accounted C s) (sha : σ) :
    Ends io (stamp sha) s (fun _ t => Going C (fun _ => False) s t ∧ t.pendingDeletes = s.pendingDeletes)
      (fun _ t => t = s ∧ (io (.stamp sha)).Throws) fun _ => True := by
  refine ends_call (fun _ => ?_) (fun hio => ⟨rfl, hio⟩) fun _ => trivial
  cases hread : s.blobs.read sha with
  | none => exact ⟨.refl h, rfl⟩
  | some f =>
    exact ⟨⟨⟨h.stamped hread s.now, contentAt_stamped hread s.now, rfl⟩, fun _ _ => rfl, rfl, rfl, rfl, rfl⟩, rfl⟩


/-! ### Retention -/

theorem writeMeta_accounted (job : ι) (m : Meta) :
    Lasts io (Steady C s) (fun _ => True) (writeMeta job m : Op σ ι Unit) :=
  lasts_write (fun _ _ => trivial) fun _ ht =>
    ⟨ht.accounted.of_eq ⟨rfl, rfl⟩ rfl rfl rfl rfl rfl rfl rfl,
      fun path => (contentAt_congr ⟨rfl, rfl⟩ path).trans (ht.contents path), ht.reserved⟩

/-- **Pins and terminal marks never spoil the accounts.** -/
theorem setJobState_accounted (h : Accounted C s) (job : ι) (field : StateField) :
    Ends io (setJobState C job field) s (fun _ => Steady C s) (fun _ => Steady C s)
      fun _ => True := by
  refine ((readManifest_ends s io job).mono (fun _ _ ht => ht) (fun _ _ ht => ht.symm ▸ .refl h)
    fun _ _ => trivial).bind fun r t ht => ?_
  obtain ⟨rfl, -, -⟩ := ht
  cases r with
  | none => exact .refl h
  | some d =>
    refine (flush_accounted h).bind fun _ u hu => ?_
    have hu := hu.1.toSteady
    refine ends_ask_bind ?_ hu trivial
    dsimp only
    split_ifs
    · exact hu
    · refine (writeMeta_accounted job _ u hu).bind fun _ v hv => Ends.bind (R := fun _ => Steady C t)
        (ends_handle.2 ((record_accounted hv.accounted (trueOf_record job field)
          (fun _ => True) fun _ _ _ => trivial).mono (fun _ w hw => ?_) (fun e w hw => ?_)
          fun _ h => h)) fun _ w hw => hw
      · exact hv.trans hw.2.toSteady
      · exact (writeMeta_accounted job _ w (hv.trans hw)).bind fun _ x hx => hx

/-! ### Reading manifests -/

theorem Accounted.cached (h : Accounted C s) {cache : List (ι × List σ)}
    (hcache : ∀ e ∈ cache, ∃ d, s.docOf C e.1 = some d ∧ e.2 = d.blobs) :
    Accounted C { s with jobBlobCache := cache } :=
  { blobsOnce := h.blobsOnce
    manifestsOnce := h.manifestsOnce
    bytes := h.bytes
    blobs := h.blobs
    manifests := h.manifests
    gone := h.gone
    intents := h.intents
    pending := h.pending
    cache := hcache }

theorem mem_of_lookup {α β : Type} [DecidableEq α] {l : List (α × β)} {a : α} {b : β}
    (h : l.lookup a = some b) : (a, b) ∈ l := by
  obtain ⟨before, after, rfl, -⟩ := List.lookup_eq_some_iff.1 h
  simp

/-- **`jobBlobs` tells what the manifest on disk references.** -/
theorem jobBlobs_accounted (h : Accounted C s) (job : ι) :
    Ends io (jobBlobs C job) s
      (fun r t => Steady C s t ∧ r = (s.docOf C job).map Doc.blobs) (fun _ => Steady C s)
      fun _ => True := by
  refine ends_bind.2 (ends_get.2 ?_)
  cases hlookup : s.jobBlobCache.lookup job with
  | some set =>
    obtain ⟨d, hd, rfl⟩ := h.cache (job, set) (mem_of_lookup hlookup)
    exact ⟨.refl h, by simp [hd]⟩
  | none =>
    refine ((readManifest_ends s io job).mono (fun _ _ ht => ht) (fun _ _ ht => ht.symm ▸ .refl h)
      fun _ _ => trivial).bind fun r t ht => ?_
    obtain ⟨rfl, hr, -⟩ := ht
    cases r with
    | none => exact ⟨.refl h, by simp [← hr]⟩
    | some d =>
      refine ⟨.of_sameObjects (h.cached fun e he => ?_) ⟨rfl, rfl⟩ rfl, by simp [← hr]⟩
      rcases List.mem_append.1 he with he | he
      · split_ifs at he
        · exact h.cache e (List.mem_of_mem_tail he)
        · exact h.cache e he
      · rw [List.mem_singleton.1 he]
        exact ⟨d, hr.symm, rfl⟩

theorem isProtectedBlob_accounted (h : Accounted C s) (sha : σ) :
    Ends io (isProtectedBlob C sha) s (fun _ => Steady C s) (fun _ => Steady C s) fun _ => True := by
  refine ends_ask_bind ?_ (.refl h) trivial
  generalize s.manifests.entries.map Prod.fst = jobs
  suffices hall : ∀ t, Steady C s t → Ends io (isProtectedBy C sha jobs) t (fun _ => Steady C s)
      (fun _ => Steady C s) fun _ => True from hall s (.refl h)
  induction jobs with
  | nil => exact fun t ht => ht
  | cons job jobs ih =>
    intro t ht
    refine ends_ask_bind ?_ ht trivial
    split_ifs
    · exact ih t ht
    · refine ((jobBlobs_accounted ht.accounted job).mono (fun _ u hu => ht.trans hu.1)
        (fun _ u hu => ht.trans hu) fun _ h => h).bind fun set u hu => ?_
      split_ifs
      · exact hu
      · exact ih u hu

/-- The guard of a deletion. -/
theorem refuseProtected_accounted (h : Accounted C s) (path : Path σ ι) :
    Ends io (refuseProtected C path) s
      (fun _ t => Steady C s t ∧ ∀ job, path = .manifest job → t = s) (fun _ => Steady C s)
      fun _ => True := by
  cases path with
  | manifest job => exact ⟨.refl h, fun _ _ => rfl⟩
  | blob sha =>
    refine (isProtectedBlob_accounted h sha).bind fun r t ht => ?_
    split_ifs
    · exact ht
    · exact ⟨ht, nofun⟩

/-! ### Deleting -/

variable (C) in
/-- `deleteObject` up to its unlink: the size of what is gone, `none` where nothing is to be
deleted. -/
def untilUnlinked (path : Path σ ι) : Op σ ι (Option Nat) := do
  refuseProtected C path
  let s ← Fallible.get
  if path ∈ s.verifying then return none
  else
    flushPendingDeletes
    match ← sizeOnDisk C path with
    | none => return none
    | some size =>
      append (.deleteIntent path)
      Fallible.modify fun s => { s with intents := addTo s.intents path }
      unlinkObject path
      return some size

/-- `deleteObject` behind its unlink. -/
def behindUnlink (path : Path σ ι) (size : Nat) : Op σ ι Bool := do
  Fallible.call (.syncDirectory path) .io id
  Fallible.modify fun s =>
    { s with
      bytes := s.bytes - size
      pendingDeletes := addTo s.pendingDeletes path }
  dropJob path
  journalDelete path
  Fallible.modify fun s => { s with intents := removeFrom s.intents path }
  return true

theorem deleteObject_eq (path : Path σ ι) :
    deleteObject C path = untilUnlinked C path >>= fun
      | none => return false
      | some size => behindUnlink path size := by
  unfold deleteObject untilUnlinked
  simp only [LawfulMonad.bind_assoc]
  congr 1
  funext _
  congr 1
  funext s
  split_ifs
  · rfl
  · simp only [LawfulMonad.bind_assoc]
    congr 1
    funext _
    congr 1
    funext r
    cases r with
    | none => rfl
    | some size => simp only [removeObject, behindUnlink, LawfulMonad.bind_assoc, pure_bind]

/-- The size of an object is the size of what is in its file. -/
theorem sizeOnDisk_eq (s : ObjectStore σ ι) (path : Path σ ι) :
    s.sizeOnDisk C path = (s.contentAt path).map C.sizeOf := by
  cases path with
  | blob sha => exact (Option.map_map _ _ _).symm
  | manifest job => rfl

theorem contentAt_unlinked (path q : Path σ ι) (s : ObjectStore σ ι) :
    (unlinked path s).contentAt q = if q = path then none else s.contentAt q := by
  cases path with
  | blob sha =>
    cases q with
    | blob sha' =>
      simp only [unlinked, ObjectStore.contentAt, Dir.read_unlink, Path.blob.injEq]
      split_ifs <;> rfl
    | manifest job => rfl
  | manifest job =>
    cases q with
    | blob sha' => rfl
    | manifest job' =>
      simp only [unlinked, ObjectStore.contentAt, Dir.read_unlink, Path.manifest.injEq]

/-- What an unlink frees. -/
theorem diskBytes_unlinked (h : Accounted C s) {path : Path σ ι} {size : Nat}
    (hsize : s.sizeOnDisk C path = some size) :
    (unlinked path s).diskBytes C + size = s.diskBytes C := by
  cases path with
  | blob sha =>
    have htotal := Dir.total_unlink (fun f => (C.sizeOf f.content : Int)) h.blobsOnce sha
    obtain ⟨f, hf, rfl⟩ := Option.map_eq_some_iff.1 hsize
    rw [hf] at htotal
    rw [diskBytes_eq, diskBytes_eq, ← htotal]
    simp only [unlinked, Option.map_some, Option.getD_some]
    omega
  | manifest job =>
    have htotal := Dir.total_unlink (fun c => (C.sizeOf c : Int)) h.manifestsOnce job
    obtain ⟨content, hc, rfl⟩ := Option.map_eq_some_iff.1 hsize
    rw [hc] at htotal
    rw [diskBytes_eq, diskBytes_eq, ← htotal]
    simp only [unlinked, Option.map_some, Option.getD_some]
    omega

/-- The cache without the manifest that a path names. -/
def forgotten (path : Path σ ι) (cache : List (ι × List σ)) : List (ι × List σ) :=
  cache.filter fun e => path ≠ .manifest e.1

/-- The names in the directories, behind an unlink. -/
theorem once_unlinked (h : Accounted C s) (path : Path σ ι) :
    (unlinked path s).blobs.Once ∧ (unlinked path s).manifests.Once := by
  cases path with
  | blob sha => exact ⟨h.blobsOnce.unlink sha, h.manifestsOnce⟩
  | manifest job => exact ⟨h.blobsOnce, h.manifestsOnce.unlink job⟩

/-- **An object that is unlinked** is accounted for when its bytes are taken off and the cache
forgets it. -/
theorem Accounted.unlinked (h : Accounted C s) (path : Path σ ι) (size : Nat)
    (hsize : s.sizeOnDisk C path = some size)
    (hstate : objectState s.journal path = some .put → path ∈ s.lost) :
    Accounted C
      { s with
        blobs := (unlinked path s).blobs
        manifests := (unlinked path s).manifests
        bytes := s.bytes - size
        jobBlobCache := forgotten path s.jobBlobCache } := by
  have hcontents : ∀ q, ObjectStore.contentAt
      { s with
        blobs := (Store.unlinked path s).blobs
        manifests := (Store.unlinked path s).manifests
        bytes := s.bytes - size
        jobBlobCache := forgotten path s.jobBlobCache } q =
          if q = path then none else s.contentAt q :=
    fun q => (contentAt_congr ⟨rfl, rfl⟩ q).trans (contentAt_unlinked path q s)
  have hkept : ∀ q c, (if q = path then none else s.contentAt q) = some c → s.contentAt q = some c := by
    intro q c hc
    split_ifs at hc
    exact hc
  refine
    { blobsOnce := (once_unlinked h path).1
      manifestsOnce := (once_unlinked h path).2
      bytes := ?_
      blobs := fun sha hsha => h.blobs sha (hkept _ _ ((hcontents _).symm.trans hsha))
      manifests := fun job content hc => h.manifests job content (hkept _ _ ((hcontents _).symm.trans hc))
      gone := fun q hc hput => ?_
      intents := h.intents
      pending := fun q hq => ?_
      cache := fun e he => ?_ }
  · have hfreed := diskBytes_unlinked h hsize
    have hbytes := h.bytes
    change s.bytes - size = (Store.unlinked path s).diskBytes C
    omega
  · rw [hcontents] at hc
    split_ifs at hc with heq
    · exact .inr (heq ▸ hstate (heq ▸ hput))
    · exact h.gone q hc hput
  · rw [hcontents]
    split_ifs
    · rfl
    · exact h.pending q hq
  · obtain ⟨he, hne⟩ := List.mem_filter.1 he
    obtain ⟨d, hd, hset⟩ := h.cache e he
    refine ⟨d, ?_, hset⟩
    have hother := hcontents (.manifest e.1)
    rw [if_neg fun heq => by simp [heq] at hne] at hother
    exact (congrArg (Option.bind · C.parseManifestDoc) hother).trans hd

/-- **What is gone is pending** until its deletion is journaled. -/
theorem Accounted.deferred (h : Accounted C s) {path : Path σ ι} (hgone : s.contentAt path = none) :
    Accounted C { s with pendingDeletes := addTo s.pendingDeletes path } := by
  refine h.of_sameObjects ⟨rfl, rfl⟩ rfl rfl h.blobs h.manifests
    (fun q hq hput => (h.gone q hq hput).imp_left fun hp => mem_addTo.2 (.inl hp)) h.intents fun q hq => ?_
  rcases mem_addTo.1 hq with hq | rfl
  · exact h.pending q hq
  · exact hgone

/-- **A state that is accounted for but for the cache of what is gone**: it is when that is not
cached. -/
theorem accounted_iff_of_forgotten {path : Path σ ι}
    (h : Accounted C { s with jobBlobCache := forgotten path s.jobBlobCache })
    (hgone : s.contentAt path = none) :
    Accounted C s ↔ ∀ e ∈ s.jobBlobCache, path ≠ .manifest e.1 := by
  constructor
  · rintro hs e he rfl
    obtain ⟨d, hd, -⟩ := hs.cache e he
    have hnone : (s.contentAt (.manifest e.1)).bind C.parseManifestDoc = some d := hd
    rw [hgone] at hnone
    cases hnone
  · intro hall
    have hkept : forgotten path s.jobBlobCache = s.jobBlobCache :=
      List.filter_eq_self.2 fun e he => by simpa using hall e he
    rw [hkept] at h
    exact h

/-- **What goes wrong behind the unlink of an object** with these bytes. -/
def SlipsBehindUnlink (io : Io σ ι) (cache : List (ι × List σ)) (path : Path σ ι) (size : Nat) : Prop :=
  (io (.syncDirectory path)).Throws ∧ size ≠ 0 ∨
    io (.syncDirectory path) = .ok ∧ ∃ job, path = .manifest job ∧
      ((io (.removeMeta job)).Throws ∨ (io .syncMetas).Throws) ∧ ∃ e ∈ cache, e.1 = job

theorem behindUnlink_ends {path : Path σ ι} {size : Nat}
    (h : Accounted C
      { s with bytes := s.bytes - size, jobBlobCache := forgotten path s.jobBlobCache })
    (hgone : s.contentAt path = none) (hsmall : size = 0 → ∀ e ∈ s.jobBlobCache, path ≠ .manifest e.1) :
    Ends io (behindUnlink path size) s
      (fun _ t => Accounted C t ∧ t.reserved = s.reserved)
      (fun _ t => Accounted C t ∧ t.reserved = s.reserved ↔
        ¬ SlipsBehindUnlink io s.jobBlobCache path size) fun _ => True := by
  refine ends_bind.2 (ends_call (fun hok => ?_) (fun hthrows => ?_) fun _ => trivial)
  · -- the unlink is durable, and counted
    have hnot : ¬ (io (.syncDirectory path)).Throws := by
      rw [hok]
      rintro (h | h) <;> cases h
    rw [ends_bind, ends_modify, ends_bind]
    have hdeferred : Accounted C
        { s with
          bytes := s.bytes - size
          pendingDeletes := addTo s.pendingDeletes path
          jobBlobCache := forgotten path s.jobBlobCache } :=
      h.deferred ((contentAt_congr ⟨rfl, rfl⟩ path).trans hgone)
    have hrest : ∀ t : ObjectStore σ ι, Accounted C t → t.contentAt path = none →
        t.reserved = s.reserved → ¬ SlipsBehindUnlink io s.jobBlobCache path size →
        Ends io (do
            journalDelete path
            Fallible.modify fun s => { s with intents := removeFrom s.intents path }
            return true) t
          (fun _ t => Accounted C t ∧ t.reserved = s.reserved)
          (fun _ t => Accounted C t ∧ t.reserved = s.reserved ↔
            ¬ SlipsBehindUnlink io s.jobBlobCache path size) fun _ => True := by
      intro t ht htgone hreserved hslips
      rw [ends_bind]
      refine (journalDelete_accounted ht htgone).mono (fun _ u hu => ?_) (fun _ u hu => ?_) fun _ h => h
      · obtain ⟨hgoing, -, hdeleted⟩ := hu
        exact ⟨hgoing.accounted.settled path (by rw [hdeleted]; nofun), hgoing.reserved.trans hreserved⟩
      · exact iff_of_true ⟨hu.accounted, hu.reserved.trans hreserved⟩ hslips
    cases path with
    | blob sha =>
      refine hrest _ ((accounted_iff_of_forgotten hdeferred ?_).2 nofun) ?_ rfl ?_
      · exact (contentAt_congr ⟨rfl, rfl⟩ _).trans hgone
      · exact (contentAt_congr ⟨rfl, rfl⟩ _).trans hgone
      · rintro (⟨hthrows, -⟩ | ⟨-, job, hjob, -⟩)
        · exact hnot hthrows
        · cases hjob
    | manifest job =>
      have hslips_iff : ((io (.removeMeta job)).Throws ∨ (io .syncMetas).Throws) →
          ((∀ e ∈ s.jobBlobCache, (.manifest job : Path σ ι) ≠ .manifest e.1) ↔
            ¬ SlipsBehindUnlink io s.jobBlobCache (.manifest job) size) := by
        intro hfails
        constructor
        · rintro hall (⟨hthrows, -⟩ | ⟨-, job', hjob, -, e, he, rfl⟩)
          · exact hnot hthrows
          · exact hall e he hjob
        · intro hslips e he hjob
          exact hslips (.inr ⟨hok, job, rfl, hfails, e, he, (Path.manifest.inj hjob).symm⟩)
      unfold dropJob removeMeta
      rw [ends_bind]
      refine ends_call (fun hmeta => ?_) (fun hthrows => ?_) fun _ => trivial
      · rw [ends_bind]
        refine ends_call (fun hsync => ?_) (fun hthrows => ?_) fun _ => trivial
        · refine hrest _ ?_ ((contentAt_congr ⟨rfl, rfl⟩ _).trans hgone) rfl ?_
          · have hcache : forgotten (.manifest job) s.jobBlobCache =
                s.jobBlobCache.filter fun e => e.1 ≠ job := by
              unfold forgotten
              congr 1
              funext e
              simp [eq_comm]
            exact hdeferred.of_eq ⟨rfl, rfl⟩ rfl hcache.symm rfl rfl rfl rfl rfl
          · rintro (⟨hthrows, -⟩ | ⟨-, job', hjob, hfails, -⟩)
            · exact hnot hthrows
            · cases hjob
              rw [hmeta, hsync] at hfails
              rcases hfails with (h | h) | (h | h) <;> cases h
        · rw [← hslips_iff (.inr hthrows)]
          have hiff := accounted_iff_of_forgotten (s :=
            { s with
              metas := s.metas.unlink job
              bytes := s.bytes - size
              pendingDeletes := addTo s.pendingDeletes (.manifest job) })
            (hdeferred.of_eq ⟨rfl, rfl⟩ rfl rfl rfl rfl rfl rfl rfl) hgone
          exact ⟨fun ht => hiff.1 ht.1, fun hall => ⟨hiff.2 hall, rfl⟩⟩
      · rw [← hslips_iff (.inl hthrows)]
        have hiff := accounted_iff_of_forgotten (s :=
          { s with
            bytes := s.bytes - size
            pendingDeletes := addTo s.pendingDeletes (.manifest job) }) hdeferred hgone
        exact ⟨fun ht => hiff.1 ht.1, fun hall => ⟨hiff.2 hall, rfl⟩⟩
  · -- the unlink may not be durable, and is not counted
    by_cases hsize : size = 0
    · refine iff_of_true ⟨?_, rfl⟩ ?_
      · refine (accounted_iff_of_forgotten (h.of_eq (t :=
          { s with jobBlobCache := forgotten path s.jobBlobCache }) ⟨rfl, rfl⟩ ?_ rfl rfl rfl rfl rfl rfl)
          hgone).2 (hsmall hsize)
        simp [hsize]
      · rintro (⟨-, hne⟩ | ⟨hok, -⟩)
        · exact hne hsize
        · rw [hok] at hthrows
          rcases hthrows with h | h <;> cases h
    · refine iff_of_false (fun ht => ?_) fun hslips => hslips (.inl ⟨hthrows, hsize⟩)
      have hbytes : s.bytes - size = s.diskBytes C := h.bytes
      have hcounted : s.bytes = s.diskBytes C := ht.1.bytes
      omega

/-- **The way to the unlink.** -/
theorem untilUnlinked_ends (h : Accounted C s) (path : Path σ ι) :
    Ends io (untilUnlinked C path) s
      (fun r t => match r with
        | none => Steady C s t
        | some size => t.contentAt path = none ∧ t.reserved = s.reserved ∧
          Accounted C
            { t with bytes := t.bytes - size, jobBlobCache := forgotten path t.jobBlobCache } ∧
          (size = 0 → ∀ e ∈ t.jobBlobCache, path ≠ .manifest e.1) ∧
          ∀ job, path = .manifest job → t.jobBlobCache = s.jobBlobCache)
      (fun _ => Steady C s) fun _ => True := by
  refine (refuseProtected_accounted h path).bind fun _ t ht => ends_bind.2 (ends_get.2 ?_)
  obtain ⟨ht, hsame⟩ := ht
  split_ifs
  · exact ht
  · refine ((flush_accounted ht.accounted).mono (fun _ _ hu => hu) (fun _ _ hu => ht.trans hu)
      fun _ h => h).bind fun _ u hu => ?_
    obtain ⟨hgoing, -, -⟩ := hu
    have hu := ht.trans hgoing.toSteady
    refine ends_ask_bind ?_ hu trivial
    cases hsize : u.sizeOnDisk C path with
    | none => exact hu
    | some size =>
      obtain ⟨content, hcontent, hsizeOf⟩ := Option.map_eq_some_iff.1 ((sizeOnDisk_eq u path).symm.trans hsize)
      refine ((append_accounted hu.accounted (.deleteIntent path)).mono (fun _ _ hv => hv.1)
        (fun _ _ hv => hu.trans hv.1) fun _ h => h).bind fun _ v hv => ?_
      obtain rfl := hv
      have hintended : Accounted C
          { u with
            journal := u.journal ++ [.deleteIntent path]
            intents := addTo u.intents path } :=
        hu.accounted.intended (by rw [hcontent]; nofun)
      have hstate : objectState (u.journal ++ [.deleteIntent path]) path = some .intent := by
        simp [Fields.stateOf, Fields.object]
      rw [ends_bind, ends_modify, ends_bind, unlinkObject_eq]
      refine ends_call (fun _ => ?_) (fun _ => ?_) fun _ => trivial
      · have hunlinked := hintended.unlinked path size
          (by cases path <;> exact hsize) fun hput => by rw [hstate] at hput; cases hput
        rw [unlinked_with path u] at hunlinked ⊢
        refine ⟨(contentAt_congr ⟨rfl, rfl⟩ path).trans ((contentAt_unlinked path path u).trans
          (if_pos rfl)), ?_, ?_, ?_, ?_⟩
        · exact (by cases path <;> rfl : (unlinked path u).reserved = u.reserved).trans hu.reserved
        · cases path <;> exact hunlinked
        · rintro rfl e he rfl
          have he : e ∈ u.jobBlobCache := he
          obtain ⟨d, hd, -⟩ := hu.accounted.cache e he
          have hparse : (u.contentAt (.manifest e.1)).bind C.parseManifestDoc = some d := hd
          rw [hcontent] at hparse
          exact absurd hsizeOf (C.size_pos content d hparse).ne'
        · rintro job rfl
          have hcache : u.jobBlobCache = t.jobBlobCache := hgoing.cache
          have hback : t = s := hsame job rfl
          exact hcache.trans (by rw [hback])
      · exact hu.trans (.of_sameObjects hintended ⟨rfl, rfl⟩ rfl)

variable (C) in
/-- **A deletion goes wrong.** -/
def DeleteSlips (io : Io σ ι) (path : Path σ ι) (s : ObjectStore σ ι) : Prop :=
  ∃ size t, untilUnlinked C path io s = (.returned (some size), t) ∧
    SlipsBehindUnlink io s.jobBlobCache path size

/-- **`deleteObject`**, to its end. -/
theorem deleteObject_ends (h : Accounted C s) (path : Path σ ι) :
    Ends io (deleteObject C path) s
      (fun _ t => Accounted C t ∧ t.reserved = s.reserved)
      (fun _ t => Accounted C t ∧ t.reserved = s.reserved ↔ ¬ DeleteSlips C io path s)
      fun _ => True := by
  rw [deleteObject_eq, ends_bind]
  obtain ⟨hreturned, hthrown, -⟩ := ends_iff.1 (untilUnlinked_ends h path)
  refine ends_iff.2 ⟨fun r t heq => ?_, fun e t heq => ?_, fun _ _ => trivial⟩
  · have hr := hreturned r t heq
    cases r with
    | none => exact ⟨hr.accounted, hr.reserved⟩
    | some size =>
      obtain ⟨hgone, hreserved, hcorrected, hsmall, hcache⟩ := hr
      have hslips : DeleteSlips C io path s ↔ SlipsBehindUnlink io t.jobBlobCache path size := by
        have hcases : SlipsBehindUnlink io t.jobBlobCache path size ↔
            SlipsBehindUnlink io s.jobBlobCache path size := by
          cases path with
          | blob sha => simp [SlipsBehindUnlink]
          | manifest job => rw [hcache job rfl]
        rw [hcases]
        constructor
        · rintro ⟨size', t', heq', hslips⟩
          cases heq.symm.trans heq'
          exact hslips
        · exact fun hslips => ⟨size, t, heq, hslips⟩
      rw [hslips, ← hreserved]
      exact behindUnlink_ends hcorrected hgone hsmall
  · have ht := hthrown e t heq
    refine iff_of_true ⟨ht.accounted, ht.reserved⟩ ?_
    rintro ⟨size, t', heq', -⟩
    cases heq.symm.trans heq'

/-! ### Storing a blob -/

section Put

variable {sha body : σ} {declaredSize : Nat}

variable (C cfg) in
/-- `storeBlob` up to its rename: the size of what is replaced, `none` where nothing is to be
stored. -/
def beforeRename (sha body : σ) (declaredSize : Nat) : Op σ ι (Option Nat) := do
  Fallible.call (.upload sha) .io id
  let size := C.sizeOf body
  if cfg.maxBlobBytes < size then Fallible.raise .tooLarge
  else if body ≠ sha then Fallible.raise .hashMismatch
  else if ← intactBlob C sha size then
    stamp sha
    journalIfNeeded C sha
    return none
  else
    let replaced := (← sizeOnDisk C (.blob sha)).getD 0
    let s ← Fallible.get
    if cfg.aboveAdmission (s.bytes + size + (s.reserved - declaredSize)) then Fallible.raise .aboveCap
    else
      flushPendingDeletes
      return some replaced

variable (C cfg) in
/-- `putBlob` up to the rename. -/
def untilRename (sha body : σ) (declaredSize : Nat) : Op σ ι (Option Nat) := do
  if cfg.maxBlobBytes < declaredSize then Fallible.raise .tooLarge
  else if ← intactBlob C sha declaredSize then return none
  else
    reserve cfg declaredSize
    beforeRename C cfg sha body declaredSize

variable (C) in
/-- `storeBlob` from the rename on. -/
def renameAndCommit (sha : σ) (replaced : Nat) : Op σ ι Bool := do
  renameBlob C sha replaced
  Fallible.handle (commitBlob C sha) fun e => do
    undoBlob C sha
    Fallible.raise e
  return true

theorem storeBlob_eq : (storeBlob C cfg sha body declaredSize : Op σ ι Bool) =
    beforeRename C cfg sha body declaredSize >>= fun
      | none => return false
      | some replaced => renameAndCommit C sha replaced := by
  unfold storeBlob beforeRename
  simp only [LawfulMonad.bind_assoc]
  congr 1
  funext _
  split_ifs
  · rfl
  · rfl
  · simp only [LawfulMonad.bind_assoc]
    congr 1
    funext intact
    cases intact with
    | true => simp only [if_true, LawfulMonad.bind_assoc, pure_bind]
    | false =>
      simp only [Bool.false_eq_true, if_false, LawfulMonad.bind_assoc]
      congr 1
      funext replaced
      congr 1
      funext s
      split_ifs
      · rfl
      · simp only [LawfulMonad.bind_assoc, pure_bind, renameAndCommit]

/-- **What `intactBlob` tells.** -/
theorem intactBlob_reads (s : ObjectStore σ ι) (sha : σ) (size : Nat) :
    Ends io (intactBlob C sha size) s
      (fun r t => t = s ∧ (r = true → s.contentAt (.blob sha) ≠ none) ∧
        (r = false → size = C.sizeOf sha → s.contentAt (.blob sha) ≠ some sha))
      (fun _ t => t = s) fun _ => True := by
  refine ends_ask_bind ?_ rfl trivial
  by_cases hsize : s.sizeOnDisk C (.blob sha) = some size
  · rw [if_neg (not_not.2 hsize)]
    rw [sizeOnDisk_eq] at hsize
    obtain ⟨content, hcontent, hsizeOf⟩ := Option.map_eq_some_iff.1 hsize
    rw [contentOnDisk_eq]
    refine ends_ask_bind ?_ rfl trivial
    rw [hcontent]
    refine ⟨rfl, fun _ => nofun, fun hr _ => ?_⟩
    rintro h
    obtain rfl := Option.some.inj h
    simp [hsizeOf] at hr
  · rw [if_pos hsize]
    refine ⟨rfl, nofun, fun _ hsizeOf hcontent => hsize ?_⟩
    rw [sizeOnDisk_eq, hcontent, hsizeOf]
    rfl

/-- **The way to the rename.** -/
theorem beforeRename_ends (h : Accounted C s) :
    Ends io (beforeRename C cfg sha body declaredSize) s
      (fun r t => match r with
        | none => Steady C s t
        | some replaced => Going C (· ∈ s.pendingDeletes) s t ∧ t.pendingDeletes = [] ∧
          replaced = (s.sizeOnDisk C (.blob sha)).getD 0)
      (fun _ => Steady C s) fun _ => True := by
  refine ends_bind.2 (ends_call (fun _ => ?_) (fun _ => .refl h) fun _ => trivial)
  dsimp only [id]
  split_ifs
  · exact Steady.refl h
  · exact Steady.refl h
  · refine ((intactBlob_reads s sha _).mono (fun _ _ ht => ht) (fun _ _ ht => ht.symm ▸ .refl h)
      fun _ h => h).bind fun r t ht => ?_
    obtain ⟨rfl, hthere, -⟩ := ht
    cases r with
    | true =>
      have hthere := hthere rfl
      refine ((stamp_accounted h sha).mono (fun _ _ hu => hu.1) (fun _ _ hu => hu.1.symm ▸ .refl h)
        fun _ h => h).bind fun _ u hu => ?_
      refine ((journalIfNeeded_accounted hu.accounted sha ?_).mono
        (fun _ v hv => hu.toSteady.trans hv.1.toSteady) (fun _ v hv => hu.toSteady.trans hv)
        fun _ h => h).bind fun _ v hv => hv
      rwa [hu.contents]
    | false =>
      refine ends_ask_bind ?_ (.refl h) trivial
      refine ends_bind.2 (ends_get.2 ?_)
      split_ifs
      · exact .refl h
      · exact (flush_accounted h).bind fun _ u hu => ⟨hu.1, hu.2.1, rfl⟩

theorem contentAt_writtenBlob (s : ObjectStore σ ι) (sha : σ) (f : BlobFile σ) (path : Path σ ι) :
    { s with blobs := s.blobs.write sha f }.contentAt path =
      if path = .blob sha then some f.content else s.contentAt path := by
  cases path with
  | manifest job => rfl
  | blob sha' =>
    simp only [ObjectStore.contentAt, Dir.read_write, Path.blob.injEq]
    split_ifs <;> rfl

/-- **A blob that is renamed into its place** is accounted for when it is kept in mind as not
journaled. -/
theorem Accounted.renamed (h : Accounted C s) (hpending : s.pendingDeletes = []) (sha : σ) :
    Accounted C
      { s with
        blobs := s.blobs.write sha { content := sha, mtime := s.now }
        bytes := s.bytes + (C.sizeOf sha - ((s.sizeOnDisk C (.blob sha)).getD 0 : Nat))
        unjournaled := addTo s.unjournaled sha } := by
  have hcontents : ∀ path, ObjectStore.contentAt
      { s with
        blobs := s.blobs.write sha { content := sha, mtime := s.now }
        bytes := s.bytes + (C.sizeOf sha - ((s.sizeOnDisk C (.blob sha)).getD 0 : Nat))
        unjournaled := addTo s.unjournaled sha } path =
          if path = .blob sha then some sha else s.contentAt path :=
    fun path => (contentAt_congr ⟨rfl, rfl⟩ path).trans
      (contentAt_writtenBlob s sha { content := sha, mtime := s.now } path)
  refine
    { blobsOnce := h.blobsOnce.write _ _
      manifestsOnce := h.manifestsOnce
      bytes := ?_
      blobs := fun sha' hsha => ?_
      manifests := fun job content hc => h.manifests job content hc
      gone := fun q hc hput => ?_
      intents := h.intents
      pending := fun q hq => ?_
      cache := h.cache }
  · have htotal := Dir.total_unlink (fun f => (C.sizeOf f.content : Int)) h.blobsOnce sha
    have hbytes := h.bytes
    have hreplaced : (((s.sizeOnDisk C (.blob sha)).getD 0 : Nat) : Int) =
        ((s.blobs.read sha).map fun f => (C.sizeOf f.content : Int)).getD 0 := by
      cases hread : s.blobs.read sha <;> simp [ObjectStore.sizeOnDisk, hread]
    rw [diskBytes_eq] at hbytes
    rw [diskBytes_eq, Dir.total_write]
    dsimp only
    rw [hreplaced]
    omega
  · by_cases heq : sha' = sha
    · exact .inr (mem_addTo.2 (.inr heq))
    · rw [hcontents, if_neg fun h => heq (Path.blob.inj h)] at hsha
      exact (h.blobs sha' hsha).imp_right fun hu => mem_addTo.2 (.inl hu)
  · rw [hcontents] at hc
    split_ifs at hc
    exact h.gone q hc hput
  · rw [hpending] at hq
    cases hq

/-- What is not there need not be kept in mind. -/
theorem Accounted.unminded (h : Accounted C { s with unjournaled := addTo s.unjournaled sha })
    (hthere : s.contentAt (.blob sha) ≠ some sha) : Accounted C s := by
  have hs : Accounted C { s with unjournaled := s.unjournaled } := by
    refine h.of_sameObjects ⟨rfl, rfl⟩ rfl rfl (fun sha' hsha => ?_) h.manifests h.gone h.intents
      h.pending
    refine (h.blobs sha' hsha).imp_right fun hu => (mem_addTo.1 hu).resolve_right ?_
    rintro rfl
    exact hthere hsha
  exact hs

/-- **The commit of a blob fails.** -/
def CommitFails (io : Io σ ι) (s : ObjectStore σ ι) (size : Nat) (sha : σ) : Prop :=
  (io (.stamp sha)).Throws ∨ (io (.syncDirectory (.blob sha))).Throws ∨ (io (.stat (.blob sha))).Throws ∨
    AppendFails io s (.put (.blob sha) sha size)

theorem removeFrom_addTo {α : Type} [DecidableEq α] (l : List α) (a : α) :
    removeFrom (addTo l a) a = removeFrom l a := by
  unfold addTo
  split_ifs
  · rfl
  · simp [removeFrom]

/-- The record of a blob that is in its place. -/
theorem journalBlob_renamed (h : Accounted C { s with unjournaled := addTo s.unjournaled sha })
    (hcontent : s.contentAt (.blob sha) = some sha) :
    Ends io (journalBlob C sha) s
      (fun _ t => Accounted C t ∧ t.contentAt (.blob sha) = some sha ∧
        objectState t.journal (.blob sha) = some .put ∧ t.reserved = s.reserved ∧
        (io (.stat (.blob sha))) = .ok ∧ ¬ AppendFails io s (.put (.blob sha) sha (C.sizeOf sha)))
      (fun _ t => (Accounted C { t with unjournaled := addTo t.unjournaled sha } ∧
        (∀ path, t.contentAt path = s.contentAt path) ∧ t.reserved = s.reserved ∧
        t.journal = s.journal ∧ t.lost = s.lost ∧ t.pendingDeletes = s.pendingDeletes) ∧
        ((io (.stat (.blob sha))).Throws ∨ AppendFails io s (.put (.blob sha) sha (C.sizeOf sha))))
      fun _ => True := by
  have hsize : (s.sizeOnDisk C (.blob sha)).getD 0 = C.sizeOf sha := by
    rw [sizeOnDisk_eq, hcontent]
    rfl
  refine ends_bind.2 (ends_bind.2 (ends_call (fun hstat => ?_)
    (fun hthrows => ⟨⟨h, fun _ => rfl, rfl, rfl, rfl, rfl⟩, .inl hthrows⟩) fun _ => trivial))
  change Ends io (append _ >>= _) s _ _ _
  have hstate : objectState (s.journal ++ [.put (.blob sha) sha (C.sizeOf sha)]) (.blob sha) =
      some .put := by
    simp [Fields.stateOf, Fields.object]
  rw [ends_bind]
  change Ends io (append (.put (.blob sha) sha ((s.sizeOnDisk C (.blob sha)).getD 0))) s _ _ _
  rw [hsize]
  have hlate : Accounted C
      { s with
        broken := true
        stray := some (.put (.blob sha) sha (C.sizeOf sha))
        unjournaled := addTo s.unjournaled sha } :=
    h.of_eq ⟨rfl, rfl⟩ rfl rfl rfl rfl rfl rfl rfl
  refine ends_append (fun hb hio => ?_) (fun hb => ?_) (fun hio => ?_) fun hio => ?_
  · have hrecorded := (h.recorded (f := .put (.blob sha) sha (C.sizeOf sha))
      (trueOf_put (fun hnone => by cases hcontent.symm.trans hnone) _ _)).journaled sha (.inl hstate)
    dsimp only at hrecorded
    rw [removeFrom_addTo] at hrecorded
    refine ⟨hrecorded, hcontent, hstate, rfl, hstat, ?_⟩
    simp [AppendFails, Answer.Throws, hb, hio]
  · exact ⟨⟨h, fun _ => rfl, rfl, rfl, rfl, rfl⟩, .inr (.inl hb)⟩
  · exact ⟨⟨h, fun _ => rfl, rfl, rfl, rfl, rfl⟩, .inr (.inr (.inl hio))⟩
  · exact ⟨⟨hlate, fun path => contentAt_congr ⟨rfl, rfl⟩ path, rfl, rfl, rfl, rfl⟩,
      .inr (.inr (.inr hio))⟩

/-- **The commit of a blob that is in its place.** -/
theorem commitBlob_accounted (h : Accounted C { s with unjournaled := addTo s.unjournaled sha })
    (hread : s.blobs.read sha = some { content := sha, mtime := s.now }) :
    Ends io (commitBlob C sha) s
      (fun _ t => Accounted C t ∧ t.reserved = s.reserved ∧ ¬ CommitFails io s (C.sizeOf sha) sha)
      (fun _ t => (Accounted C { t with unjournaled := addTo t.unjournaled sha } ∧
        (∀ path, t.contentAt path = s.contentAt path) ∧ t.reserved = s.reserved ∧
        t.journal = s.journal ∧ t.lost = s.lost ∧ t.pendingDeletes = s.pendingDeletes) ∧
        CommitFails io s (C.sizeOf sha) sha)
      fun _ => True := by
  have hnot : ∀ {a : Answer}, a = .ok → ¬ a.Throws := by
    rintro a rfl (h | h) <;> cases h
  refine ends_bind.2 (ends_call (fun hstamp => ?_)
    (fun hthrows => ⟨⟨h, fun _ => rfl, rfl, rfl, rfl, rfl⟩, .inl hthrows⟩) fun _ => trivial)
  rw [hread]
  dsimp only
  have hstamped := h.stamped hread s.now
  have hcontents := contentAt_stamped hread s.now
  have hcontent : s.contentAt (.blob sha) = some sha := by simp [ObjectStore.contentAt, hread]
  refine ends_bind.2 (ends_call (fun hsync => ?_)
    (fun hthrows => ⟨⟨hstamped, hcontents, rfl, rfl, rfl, rfl⟩, .inr (.inl hthrows)⟩) fun _ => trivial)
  refine ends_bind.2 ((journalBlob_renamed hstamped ((hcontents _).trans hcontent)).mono
    (fun _ t ht => ?_) (fun _ t ht => ?_) fun _ h => h)
  · obtain ⟨haccounted, hthere, hstate, hreserved, hstat, happend⟩ := ht
    refine ⟨?_, hreserved, ?_⟩
    · exact (haccounted.settled (.blob sha) (by rw [hstate]; simp)).found (.blob sha)
        fun hnone => by cases hthere.symm.trans hnone
    · rintro (hthrows | hthrows | hthrows | hfails)
      · exact hnot hstamp hthrows
      · exact hnot hsync hthrows
      · exact hnot hstat hthrows
      · exact happend hfails
  · obtain ⟨⟨haccounted, hsame, hreserved, hjournal, hlost, hpending⟩, hfails⟩ := ht
    exact ⟨⟨haccounted, fun path => (hsame path).trans (hcontents path), hreserved, hjournal, hlost,
      hpending⟩, .inr (.inr hfails)⟩

/-- **What goes wrong from the rename on.** -/
def SlipsBehindRename (C : Contents σ) (io : Io σ ι) (s : ObjectStore σ ι) (sha : σ) : Prop :=
  io (.renameBlob sha) = .ok ∧ CommitFails io s (C.sizeOf sha) sha ∧ io (.unlink (.blob sha)) = .ok ∧
    objectState s.journal (.blob sha) = some .put ∧ .blob sha ∉ s.lost

theorem renameAndCommit_ends (h : Accounted C s) (hpending : s.pendingDeletes = []) :
    Ends io (renameAndCommit C sha ((s.sizeOnDisk C (.blob sha)).getD 0)) s
      (fun _ t => Accounted C t ∧ t.reserved = s.reserved ∧ ¬ SlipsBehindRename C io s sha)
      (fun _ t => Accounted C t ∧ t.reserved = s.reserved ↔ ¬ SlipsBehindRename C io s sha)
      fun _ => True := by
  have hrenamed := h.renamed hpending sha
  refine ends_bind.2 (ends_bind.2 (ends_call (fun hrename => ?_) (fun hthrows => ?_) fun _ => trivial))
  · rw [ends_modify, ends_bind, ends_handle]
    refine (commitBlob_accounted hrenamed (by simp)).mono (fun _ t ht => ?_)
      (fun _ t ht => ?_) fun _ h => h
    · obtain ⟨haccounted, hreserved, hcommits⟩ := ht
      exact ⟨haccounted, hreserved, fun hslips => hcommits hslips.2.1⟩
    · obtain ⟨⟨haccounted, hsame, hreserved, hjournal, hlost, hnone⟩, hfails⟩ := ht
      have hcontent : t.contentAt (.blob sha) = some sha :=
        (hsame _).trans (by simp [ObjectStore.contentAt])
      have hlost : t.lost = s.lost := hlost
      have hjournal : t.journal = s.journal := hjournal
      have hreserved : t.reserved = s.reserved := hreserved
      have hnone : t.pendingDeletes = [] := hnone.trans hpending
      unfold undoBlob
      rw [ends_bind, ends_handle, ends_bind]
      refine ends_call (fun hunlink => ?_) (fun hthrows => ?_) fun _ => trivial
      · -- the blob goes: its put record must not stand alone
        have hgone : (unlinked (.blob sha) t).contentAt (.blob sha) = none :=
          (contentAt_unlinked _ _ t).trans (if_pos rfl)
        have hslips : SlipsBehindRename C io s sha ↔
            objectState t.journal (.blob sha) = some .put ∧ .blob sha ∉ t.lost := by
          rw [hjournal, hlost]
          exact ⟨fun h => h.2.2.2, fun h => ⟨hrename, hfails, hunlink, h⟩⟩
        rw [hslips]
        constructor
        · rintro ⟨hafter, -⟩ ⟨hput, hnotLost⟩
          rcases hafter.gone (.blob sha) hgone hput with hp | hl
          · have hp : (.blob sha) ∈ t.pendingDeletes := hp
            rw [hnone] at hp
            cases hp
          · exact hnotLost hl
        · intro hok
          have hsize : t.sizeOnDisk C (.blob sha) = some (C.sizeOf sha) := by
            rw [sizeOnDisk_eq, hcontent]
            rfl
          have hunlinked := haccounted.unlinked (.blob sha) (C.sizeOf sha) hsize
            fun hput => not_not.1 fun hl => hok ⟨hput, hl⟩
          have hcache : forgotten (.blob sha) t.jobBlobCache = t.jobBlobCache :=
            List.filter_eq_self.2 fun _ _ => by simp
          dsimp only at hunlinked
          rw [hcache] at hunlinked
          refine ⟨Accounted.unminded hunlinked ?_, hreserved⟩
          exact fun hthere => by cases hgone.symm.trans hthere
      · -- the blob stays, and is kept in mind
        refine iff_of_true ⟨haccounted, hreserved⟩ fun hslips => ?_
        rw [hslips.2.2.1] at hthrows
        rcases hthrows with h | h <;> cases h
  · refine iff_of_true ⟨h, rfl⟩ fun hslips => ?_
    rw [hslips.1] at hthrows
    rcases hthrows with h | h <;> cases h

/-- **A corrupt blob is replaced, and what goes wrong then.** -/
def Replaces (C : Contents σ) (io : Io σ ι) (s : ObjectStore σ ι) (sha : σ) : Prop :=
  s.contentAt (.blob sha) ≠ none ∧ SlipsBehindRename C io s sha

/-- What the way to the rename leaves of it. -/
theorem slipsBehindRename_iff (h : Accounted C s) (hgoing : Going C (· ∈ s.pendingDeletes) s t)
    (hpending : t.pendingDeletes = []) :
    SlipsBehindRename C io t sha ↔ Replaces C io s sha := by
  have hcommit : CommitFails io t (C.sizeOf sha) sha ↔ CommitFails io s (C.sizeOf sha) sha := by
    unfold CommitFails AppendFails
    rw [hgoing.broken]
  have hstate : s.contentAt (.blob sha) ≠ none →
      objectState t.journal (.blob sha) = objectState s.journal (.blob sha) :=
    fun hthere => hgoing.states _ fun hp => hthere (h.pending _ hp)
  unfold SlipsBehindRename
  rw [hcommit, hgoing.lost]
  constructor
  · rintro ⟨hrename, hfails, hunlink, hput, hlost⟩
    have hthere : s.contentAt (.blob sha) ≠ none := by
      intro hnone
      rcases hgoing.accounted.gone (.blob sha) ((hgoing.contents _).trans hnone) hput with hp | hl
      · rw [hpending] at hp
        cases hp
      · exact hlost (hgoing.lost ▸ hl)
    exact ⟨hthere, hrename, hfails, hunlink, hstate hthere ▸ hput, hlost⟩
  · rintro ⟨hthere, hrename, hfails, hunlink, hput, hlost⟩
    exact ⟨hrename, hfails, hunlink, (hstate hthere).trans hput, hlost⟩

theorem storeBlob_accounts (h : Accounted C s) :
    Ends io (storeBlob C cfg sha body declaredSize) s
      (fun _ t => Accounted C t ∧ t.reserved = s.reserved ∧
        ¬ ((∃ replaced t, beforeRename C cfg sha body declaredSize io s = (.returned (some replaced), t)) ∧
          Replaces C io s sha))
      (fun _ t => Accounted C t ∧ t.reserved = s.reserved ↔
        ¬ ((∃ replaced t, beforeRename C cfg sha body declaredSize io s = (.returned (some replaced), t)) ∧
          Replaces C io s sha))
      fun _ => True := by
  rw [storeBlob_eq, ends_bind]
  obtain ⟨hreturned, hthrown, -⟩ := ends_iff.1
    (beforeRename_ends h)
  refine ends_iff.2 ⟨fun r t heq => ?_, fun e t heq => ?_, fun _ _ => trivial⟩
  · have hr := hreturned r t heq
    cases r with
    | none =>
      refine ⟨hr.accounted, hr.reserved, ?_⟩
      rintro ⟨⟨replaced, t', heq'⟩, -⟩
      cases heq.symm.trans heq'
    | some replaced =>
      obtain ⟨hgoing, hpending, rfl⟩ := hr
      have hsize : s.sizeOnDisk C (.blob sha) = t.sizeOnDisk C (.blob sha) := by
        rw [sizeOnDisk_eq, sizeOnDisk_eq, hgoing.contents]
      have hslips : SlipsBehindRename C io t sha ↔ Replaces C io s sha :=
        slipsBehindRename_iff h hgoing hpending
      have hreached : ((∃ replaced t, beforeRename C cfg sha body declaredSize io s =
          (.returned (some replaced), t)) ∧ Replaces C io s sha) ↔ SlipsBehindRename C io t sha := by
        rw [hslips]
        exact ⟨And.right, fun hs => ⟨⟨_, t, heq⟩, hs⟩⟩
      rw [hreached, hsize, ← hgoing.reserved]
      exact renameAndCommit_ends hgoing.accounted hpending
  · have ht := hthrown e t heq
    refine iff_of_true ⟨ht.accounted, ht.reserved⟩ ?_
    rintro ⟨⟨replaced, t', heq'⟩, -⟩
    cases heq.symm.trans heq'

variable (C cfg) in
/-- **An upload goes wrong**: a blob that is corrupt though it has a put record is replaced, the
commit fails, and the blob goes. -/
def PutSlips (io : Io σ ι) (sha body : σ) (declaredSize : Nat) (s : ObjectStore σ ι) : Prop :=
  (∃ replaced t, untilRename C cfg sha body declaredSize io s = (.returned (some replaced), t)) ∧
    Replaces C io s sha

theorem acknowledgeDuplicate_accounts (h : Accounted C s) :
    Ends io (acknowledgeDuplicate C sha body) s (fun _ => Steady C s) (fun _ => Steady C s)
      fun _ => True := by
  refine ends_bind.2 (ends_call (fun _ => ?_) (fun _ => .refl h) fun _ => trivial)
  split_ifs
  · exact Steady.refl h
  · refine ends_ask_bind ?_ (.refl h) trivial
    split_ifs with hgone
    · exact Steady.refl h
    · have hthere : s.contentAt (.blob sha) ≠ none := by
        rw [sizeOnDisk_eq] at hgone
        simpa using hgone
      refine ((stamp_accounted h sha).mono (fun _ _ ht => ht.1) (fun _ _ ht => ht.1.symm ▸ .refl h)
        fun _ h => h).bind fun _ t ht => ?_
      refine ((journalIfNeeded_accounted ht.accounted sha ?_).mono
        (fun _ u hu => ht.toSteady.trans hu.1.toSteady) (fun _ u hu => ht.toSteady.trans hu)
        fun _ h => h).bind fun _ u hu => ?_
      · rwa [ht.contents]
      · refine ((cancelIntent_accounted hu.accounted (.blob sha) ?_).mono
          (fun _ v hv => hu.trans hv.1.toSteady) (fun _ v hv => hu.trans hv)
          fun _ h => h).bind fun _ v hv => hv
        rwa [hu.contents]

/-- **`putBlob`**, to its end. -/
theorem putBlob_accounts (h : Accounted C s) :
    Ends io (putBlob C cfg sha body declaredSize) s
      (fun _ t => Accounted C t ∧ t.reserved = s.reserved)
      (fun _ t => Accounted C t ∧ t.reserved = s.reserved ↔
        ¬ PutSlips C cfg io sha body declaredSize s)
      fun _ => True := by
  unfold putBlob
  split_ifs with hmax
  · refine iff_of_true ⟨h, rfl⟩ ?_
    rintro ⟨⟨replaced, t, heq⟩, -⟩
    rw [untilRename, if_pos hmax] at heq
    cases heq
  · have huntil : (untilRename C cfg sha body declaredSize : Op σ ι _) =
        (do
          if ← intactBlob C sha declaredSize then return none
          else
            reserve cfg declaredSize
            beforeRename C cfg sha body declaredSize) := if_neg hmax
    obtain ⟨hreturned, hthrown, -⟩ := ends_iff.1 (intactBlob_reads s sha declaredSize)
    rw [ends_bind]
    refine ends_iff.2 ⟨fun r t heq => ?_, fun e t heq => ?_, fun _ _ => trivial⟩
    · obtain ⟨rfl, -, -⟩ := hreturned r t heq
      cases r with
      | true =>
        have hslips : ¬ PutSlips C cfg io sha body declaredSize t := by
          rintro ⟨⟨replaced, u, hu⟩, -⟩
          rw [huntil, bind_of_returned heq] at hu
          cases hu
        refine (acknowledgeDuplicate_accounts h).mono (fun _ u hu => ⟨hu.accounted, hu.reserved⟩)
          (fun _ u hu => iff_of_true ⟨hu.accounted, hu.reserved⟩ hslips) fun _ h => h
      | false =>
        have hreserve : ∀ u, (reserve cfg declaredSize : Op σ ι Unit) io t = (.returned (), u) →
            untilRename C cfg sha body declaredSize io t =
              beforeRename C cfg sha body declaredSize io u := by
          intro u hu
          rw [huntil, bind_of_returned heq]
          exact bind_of_returned hu
        unfold reserve at hreserve ⊢
        rw [if_neg Bool.false_ne_true, ends_bind, ends_bind, ends_get]
        by_cases habove : cfg.aboveAdmission (t.bytes + t.reserved + declaredSize)
        · rw [if_pos habove]
          refine iff_of_true ⟨h, rfl⟩ ?_
          rintro ⟨⟨replaced, u, hu⟩, -⟩
          rw [huntil, bind_of_returned heq, if_neg Bool.false_ne_true] at hu
          unfold reserve at hu
          rw [LawfulMonad.bind_assoc, bind_of_returned (m := Fallible.get) rfl, if_pos habove] at hu
          cases hu
        · have hslips : PutSlips C cfg io sha body declaredSize t ↔
              (∃ replaced u, beforeRename C cfg sha body declaredSize io
                { t with reserved := t.reserved + declaredSize } = (.returned (some replaced), u)) ∧
                Replaces C io { t with reserved := t.reserved + declaredSize } sha := by
            unfold PutSlips
            rw [hreserve { t with reserved := t.reserved + declaredSize } ?_]
            · rfl
            · rw [bind_of_returned (m := Fallible.get) rfl, if_neg habove]
              rfl
          rw [if_neg habove, ends_modify, hslips, ends_ensuring]
          have hheld : Accounted C { t with reserved := t.reserved + declaredSize } :=
            h.of_eq ⟨rfl, rfl⟩ rfl rfl rfl rfl rfl rfl rfl
          have hreleased : ∀ u : ObjectStore σ ι, Accounted C u →
              Accounted C { u with reserved := u.reserved - declaredSize } :=
            fun u hu => hu.of_eq ⟨rfl, rfl⟩ rfl rfl rfl rfl rfl rfl rfl
          refine (storeBlob_accounts hheld).mono (fun _ u hu => ?_) (fun _ u hu => ?_) fun _ h => h
          · obtain ⟨haccounted, hreserved, hnot⟩ := hu
            have hback : u.reserved - declaredSize = t.reserved := by
              rw [hreserved]
              exact Int.add_sub_cancel _ _
            refine ends_bind.2 (ends_call (fun _ => ?_) (fun _ => ?_) fun _ => trivial)
            · exact ⟨hreleased u haccounted, hback⟩
            · exact iff_of_true ⟨hreleased u haccounted, hback⟩ hnot
          · have hthrown : Accounted C { u with reserved := u.reserved - declaredSize } ∧
                u.reserved - declaredSize = t.reserved ↔ Accounted C u ∧
                  u.reserved = t.reserved + declaredSize := by
              constructor
              · rintro ⟨haccounted, hback⟩
                exact ⟨haccounted.of_eq ⟨rfl, rfl⟩ rfl rfl rfl rfl rfl rfl rfl, by omega⟩
              · rintro ⟨haccounted, hback⟩
                exact ⟨hreleased u haccounted, by omega⟩
            refine ends_bind.2 (ends_call (fun _ => ?_) (fun _ => ?_) fun _ => trivial)
            · exact hthrown.trans hu
            · exact hthrown.trans hu
    · obtain rfl := hthrown e t heq
      refine iff_of_true ⟨h, rfl⟩ ?_
      rintro ⟨⟨replaced, u, hu⟩, -⟩
      rw [huntil, bind_of_thrown heq] at hu
      cases hu

end Put

/-! ### Registering -/

section Register

variable {job : ι} {content : σ}

variable (C cfg) in
/-- `registerManifest` up to its first write: whether there is something to be written. -/
def untilWrite (job : ι) (content : σ) : Op σ ι Bool := do
  let size := C.sizeOf content
  if cfg.maxManifestBytes < size then Fallible.raise .tooLarge
  else match C.parseManifestDoc content with
  | none => Fallible.raise .badManifest
  | some doc =>
    match ← readManifest C job with
    | some existing =>
      if existing.manifestHash ≠ doc.manifestHash then Fallible.raise .differentManifest
      else return false
    | none =>
      let missing ← missingFiles C doc.files
      if missing ≠ [] then Fallible.raise (.missingBlobs (missing.foldl addTo []))
      else
        let s ← Fallible.get
        if cfg.aboveAdmission (s.bytes + s.reserved + size) then Fallible.raise .aboveCap
        else
          flushPendingDeletes
          doc.blobs.forM (journalIfNeeded C)
          doc.blobs.forM fun sha => cancelIntent (.blob sha)
          return true

variable (C) in
/-- `registerManifest` from its first write on. -/
def writeAndJournal (job : ι) (content : σ) : Op σ ι Bool := do
  writeManifest job content
  Fallible.modify fun s => { s with bytes := s.bytes + C.sizeOf content }
  Fallible.handle
    (do
      let s ← Fallible.get
      writeMeta job { registeredAt := some s.now }
      append (.put (.manifest job) content (C.sizeOf content)))
    fun e => do
      undoManifest job (C.sizeOf content)
      Fallible.raise e
  Fallible.modify fun s => { s with lost := removeFrom s.lost (.manifest job) }
  return true

theorem registerManifest_eq : (registerManifest C cfg job content : Op σ ι Bool) =
    untilWrite C cfg job content >>= fun written =>
      if written then writeAndJournal C job content else return false := by
  unfold registerManifest untilWrite
  dsimp only
  split_ifs
  · rfl
  · cases C.parseManifestDoc content with
    | none => rfl
    | some doc =>
      dsimp only
      rw [LawfulMonad.bind_assoc]
      congr 1
      funext existing
      cases existing with
      | some d =>
        dsimp only
        split_ifs <;> rfl
      | none =>
        dsimp only
        rw [LawfulMonad.bind_assoc]
        congr 1
        funext missing
        split_ifs
        · rfl
        · rw [LawfulMonad.bind_assoc]
          congr 1
          funext s
          split_ifs
          · rfl
          · simp only [LawfulMonad.bind_assoc, pure_bind, if_true, writeAndJournal]

/-- The blobs of a manifest are journaled, and their intents void. -/
theorem settleBlobs_accounts (h : Accounted C s) (shas : List σ)
    (hthere : ∀ sha ∈ shas, s.contentAt (.blob sha) ≠ none) :
    Ends io
      (do
        shas.forM (journalIfNeeded C)
        shas.forM fun sha => cancelIntent (.blob sha)
        return true) s
      (fun r t => r = true ∧ Going C (fun path => ∃ sha, path = .blob sha) s t ∧
        t.pendingDeletes = s.pendingDeletes)
      (fun _ => Steady C s) fun _ => True := by
  have hloop : ∀ f : σ → Op σ ι Unit, (∀ sha t, Accounted C t → t.contentAt (.blob sha) ≠ none →
      Ends io (f sha) t (fun _ u => Going C (· = .blob sha) t u ∧ u.pendingDeletes = t.pendingDeletes)
        (fun _ => Steady C t) fun _ => True) →
      ∀ t, Going C (fun path => ∃ sha, path = .blob sha) s t ∧ t.pendingDeletes = s.pendingDeletes →
        Ends io (shas.forM f) t
          (fun _ u => Going C (fun path => ∃ sha, path = .blob sha) s u ∧
            u.pendingDeletes = s.pendingDeletes)
          (fun _ => Steady C s) fun _ => True := by
    intro f hf t ht
    refine ends_forM shas (fun sha hsha u hu => ?_) ht
    obtain ⟨hu, hpending⟩ := hu
    refine (hf sha u hu.accounted ?_).mono (fun _ v hv => ?_) (fun _ v hv => hu.toSteady.trans hv)
      fun _ h => h
    · rw [hu.contents]
      exact hthere sha hsha
    · exact ⟨hu.trans (hv.1.mono fun path hp => ⟨sha, hp⟩), hv.2.trans hpending⟩
  refine (hloop _ (fun sha t ht h => journalIfNeeded_accounted ht sha h) s ⟨.refl h, rfl⟩).bind
    fun _ t ht => ?_
  exact (hloop _ (fun sha t ht h => cancelIntent_accounted ht (.blob sha) h) t ht).bind fun _ u hu => ⟨rfl, hu⟩

/-- **The way to the first write.** -/
theorem untilWrite_ends (h : Accounted C s) :
    Ends io (untilWrite C cfg job content) s
      (fun r t => match r with
        | false => Steady C s t
        | true => Steady C s t ∧ t.broken = s.broken ∧ t.now = s.now ∧ t.pendingDeletes = [] ∧
          s.contentAt (.manifest job) = none ∧ (∃ d, C.parseManifestDoc content = some d) ∧
          (Live t.journal (.manifest job) ↔
            Live s.journal (.manifest job) ∧ .manifest job ∉ s.pendingDeletes))
      (fun _ => Steady C s) fun _ => True := by
  unfold untilWrite
  dsimp only
  split_ifs
  · exact Steady.refl h
  · cases hparse : C.parseManifestDoc content with
    | none => exact Steady.refl h
    | some doc =>
      refine ((readManifest_ends s io job).mono (fun _ _ ht => ht) (fun _ _ ht => ht.symm ▸ .refl h)
        fun _ _ => trivial).bind fun r t ht => ?_
      obtain ⟨rfl, -, hnone⟩ := ht
      cases r with
      | some existing =>
        dsimp only
        split_ifs
        · exact Steady.refl h
        · exact Steady.refl h
      | none =>
        refine ((missingFiles_ends t io doc.files).mono (fun _ _ ht => ht)
          (fun _ _ ht => ht.symm ▸ .refl h) fun _ _ => trivial).bind fun missing u hu => ?_
        obtain ⟨rfl, hmissing⟩ := hu
        split_ifs with hm
        · exact Steady.refl h
        · refine ends_bind.2 (ends_get.2 ?_)
          split_ifs
          · exact Steady.refl h
          · have hthere : ∀ sha ∈ doc.blobs, u.contentAt (.blob sha) ≠ none := by
              intro sha hsha
              obtain ⟨f, hf, rfl⟩ := List.mem_map.1 hsha
              have hsize := hmissing (not_not.1 hm) f hf
              rw [sizeOnDisk_eq] at hsize
              intro hgone
              rw [hgone] at hsize
              cases hsize
            refine (flush_accounted h).bind fun _ v hv => ?_
            obtain ⟨hflushed, hpending, hdeleted⟩ := hv
            refine (settleBlobs_accounts hflushed.accounted doc.blobs fun sha hsha => ?_).mono
              (fun r w hw => ?_) (fun _ w hw => hflushed.toSteady.trans hw) fun _ h => h
            · rw [hflushed.contents]
              exact hthere sha hsha
            · obtain ⟨rfl, hgoing, hsame⟩ := hw
              refine ⟨hflushed.toSteady.trans hgoing.toSteady, hgoing.broken.trans hflushed.broken,
                hgoing.now.trans hflushed.now, hsame.trans hpending, hnone rfl, ⟨doc, rfl⟩, ?_⟩
              have hstate : objectState w.journal (.manifest job) = objectState v.journal (.manifest job) :=
                hgoing.states _ (by rintro ⟨sha, hsha⟩; cases hsha)
              unfold Live
              rw [hstate]
              by_cases hin : (.manifest job) ∈ u.pendingDeletes
              · rw [hdeleted _ hin]
                simp [hin]
              · rw [hflushed.states _ hin]
                simp [hin]

theorem contentAt_writtenManifest (s : ObjectStore σ ι) (job : ι) (content : σ) (path : Path σ ι) :
    { s with manifests := s.manifests.write job content }.contentAt path =
      if path = .manifest job then some content else s.contentAt path := by
  cases path with
  | blob sha => rfl
  | manifest job' => simp only [ObjectStore.contentAt, Dir.read_write, Path.manifest.injEq]

/-- What a manifest adds. -/
theorem diskBytes_writtenManifest (s : ObjectStore σ ι) (hnone : s.contentAt (.manifest job) = none)
    (content : σ) :
    { s with manifests := s.manifests.write job content }.diskBytes C = s.diskBytes C + C.sizeOf content := by
  have hread : s.manifests.read job = none := hnone
  rw [diskBytes_eq, diskBytes_eq]
  dsimp only
  rw [Dir.total_write, Dir.unlink_of_read_none hread, Int.add_assoc]

/-- **A manifest that is written** is accounted for when its path has a live record. -/
theorem Accounted.writtenManifest (h : Accounted C s) (hnone : s.contentAt (.manifest job) = none)
    (hpending : .manifest job ∉ s.pendingDeletes) (content : σ) (js : List (Fields σ ι))
    (hothers : ∀ path ≠ .manifest job, objectState js path = objectState s.journal path)
    (hlive : Live js (.manifest job))
    (hintent : objectState js (.manifest job) = some .intent → .manifest job ∈ s.intents) :
    Accounted C
      { s with
        manifests := s.manifests.write job content
        bytes := s.bytes + C.sizeOf content
        journal := js } := by
  have hcontents : ∀ path, ObjectStore.contentAt
      { s with
        manifests := s.manifests.write job content
        bytes := s.bytes + C.sizeOf content
        journal := js } path = if path = .manifest job then some content else s.contentAt path :=
    fun path => (contentAt_congr ⟨rfl, rfl⟩ path).trans (contentAt_writtenManifest s job content path)
  have hothersLive : ∀ path ≠ .manifest job, Live s.journal path → Live js path := by
    intro path hne hl
    unfold Live
    rwa [hothers path hne]
  refine
    { blobsOnce := h.blobsOnce
      manifestsOnce := h.manifestsOnce.write _ _
      bytes := ?_
      blobs := fun sha hsha => (h.blobs sha hsha).imp_left (hothersLive _ nofun)
      manifests := fun job' content' hc => ?_
      gone := fun path hc hput => ?_
      intents := fun path hp => ?_
      pending := fun path hp => ?_
      cache := fun e he => ?_ }
  · have hdisk := diskBytes_writtenManifest (C := C) s hnone content
    have hbytes := h.bytes
    change s.bytes + C.sizeOf content =
      { s with manifests := s.manifests.write job content }.diskBytes C
    omega
  · by_cases heq : job' = job
    · exact heq ▸ hlive
    · rw [hcontents, if_neg fun h => heq (Path.manifest.inj h)] at hc
      exact hothersLive _ (fun h => heq (Path.manifest.inj h)) (h.manifests job' content' hc)
  · rw [hcontents] at hc
    split_ifs at hc with heq
    exact h.gone path hc ((hothers path heq).symm.trans hput)
  · by_cases heq : path = .manifest job
    · subst heq
      exact hintent hp
    · exact h.intents path ((hothers path heq).symm.trans hp)
  · have hne : path ≠ .manifest job := fun heq => hpending (heq ▸ hp)
    exact (hcontents path).trans ((if_neg hne).trans (h.pending path hp))
  · obtain ⟨d, hd, hset⟩ := h.cache e he
    have hne : e.1 ≠ job := by
      rintro rfl
      have hd : (s.contentAt (.manifest e.1)).bind C.parseManifestDoc = some d := hd
      rw [hnone] at hd
      cases hd
    have hother := hcontents (.manifest e.1)
    rw [if_neg fun h => hne (Path.manifest.inj h)] at hother
    exact ⟨d, (congrArg (Option.bind · C.parseManifestDoc) hother).trans hd, hset⟩

/-- **The registration's record fails**, after the manifest is written. -/
def RecordFails (C : Contents σ) (io : Io σ ι) (s : ObjectStore σ ι) (job : ι) (content : σ) : Prop :=
  (io (.writeMeta job { registeredAt := some s.now })).Throws ∨
    AppendFails io s (.put (.manifest job) content (C.sizeOf content))

/-- **What goes wrong from the first write on**: the manifest is written though the write throws, or
it cannot be taken back, or not be discounted. -/
def SlipsBehindWrite (C : Contents σ) (io : Io σ ι) (s : ObjectStore σ ι) (job : ι) (content : σ) : Prop :=
  io (.writeManifest job) = .failsLate ∨
    io (.writeManifest job) = .ok ∧ RecordFails C io s job content ∧
      ((io (.removeManifest job)).Throws ∧
          ¬ (Live s.journal (.manifest job) ∧ .manifest job ∉ s.pendingDeletes) ∨
        io (.removeManifest job) = .ok ∧ (io (.removeMeta job)).Throws)

theorem not_throws {a : Answer} (h : a = .ok) : ¬ a.Throws := by
  rw [h]
  rintro (h | h) <;> cases h

/-- **The rollback of a registration.** -/
theorem undoManifest_accounts (h : Accounted C s) (hnone : s.contentAt (.manifest job) = none)
    (hpending : s.pendingDeletes = []) (hpos : 0 < C.sizeOf content) (hwrite : io (.writeManifest job) = .ok)
    (hfails : RecordFails C io s job content) (e : StoreError σ) (metas : Dir ι Meta) (broken : Bool)
    (stray : Option (Fields σ ι)) :
    Ends io
      (do
        undoManifest job (C.sizeOf content)
        Fallible.raise e : Op σ ι Unit)
      { s with
        manifests := s.manifests.write job content
        bytes := s.bytes + C.sizeOf content
        metas, broken, stray }
      (fun _ _ => False)
      (fun _ t => Accounted C t ∧ t.reserved = s.reserved ↔ ¬ SlipsBehindWrite C io s job content)
      fun _ => True := by
  have hslips : SlipsBehindWrite C io s job content ↔
      (io (.removeManifest job)).Throws ∧ ¬ Live s.journal (.manifest job) ∨
        io (.removeManifest job) = .ok ∧ (io (.removeMeta job)).Throws := by
    unfold SlipsBehindWrite
    rw [hwrite, hpending]
    simp [hfails]
  rw [hslips]
  refine ends_bind.2 (ends_bind.2 (ends_call (fun hremove => ?_) (fun hthrows => ?_) fun _ => trivial))
  · have hback : (s.manifests.write job content).unlink job = s.manifests := by
      rw [Dir.unlink_write, Dir.unlink_of_read_none hnone]
    dsimp only
    rw [hback, ends_bind]
    refine ends_call (fun hmeta => ?_) (fun hthrows => ?_) fun _ => trivial
    · rw [ends_modify]
      refine iff_of_true ⟨h.of_eq ⟨rfl, rfl⟩ ?_ rfl rfl rfl rfl rfl rfl, rfl⟩ ?_
      · exact Int.add_sub_cancel _ _
      · rintro (⟨hthrows, -⟩ | ⟨-, hthrows⟩)
        · exact not_throws hremove hthrows
        · exact not_throws hmeta hthrows
    · refine iff_of_false (fun ht => ?_) fun hnot => hnot (.inr ⟨hremove, hthrows⟩)
      have hbytes : s.bytes + C.sizeOf content = s.diskBytes C := ht.1.bytes
      have hcounted := h.bytes
      omega
  · constructor
    · rintro ⟨ht, -⟩ (⟨-, hdead⟩ | ⟨hok, -⟩)
      · exact hdead (ht.manifests job content (by simp [ObjectStore.contentAt]))
      · exact not_throws hok hthrows
    · intro hnot
      have hlive : Live s.journal (.manifest job) := not_not.1 fun hdead => hnot (.inl ⟨hthrows, hdead⟩)
      refine ⟨(h.writtenManifest hnone (by simp [hpending]) content s.journal
        (fun _ _ => rfl) hlive (h.intents _)).of_eq ⟨rfl, rfl⟩ rfl rfl rfl rfl rfl rfl rfl, rfl⟩

theorem writeAndJournal_ends (h : Accounted C s) (hnone : s.contentAt (.manifest job) = none)
    (hpending : s.pendingDeletes = []) (hpos : 0 < C.sizeOf content) :
    Ends io (writeAndJournal C job content) s
      (fun _ t => Accounted C t ∧ t.reserved = s.reserved)
      (fun _ t => Accounted C t ∧ t.reserved = s.reserved ↔ ¬ SlipsBehindWrite C io s job content)
      fun _ => True := by
  unfold writeAndJournal writeManifest
  rw [ends_bind]
  refine ends_write (fun hwrite => ?_) (fun hwrite => ?_) (fun hwrite => ?_) fun _ => trivial
  · have hundo := undoManifest_accounts h hnone hpending hpos hwrite
    rw [ends_bind, ends_modify, ends_bind, ends_handle, ends_bind, ends_get, ends_bind]
    unfold writeMeta
    refine ends_write (fun hmeta => ?_) (fun hmeta => ?_) (fun hmeta => ?_) fun _ => trivial
    · refine ends_append (fun hb happend => ?_) (fun hb => ?_) (fun happend => ?_) fun happend => ?_
      · have hstate : objectState (s.journal ++ [.put (.manifest job) content (C.sizeOf content)])
            (.manifest job) = some .put := by
          simp [Fields.stateOf, Fields.object]
        have hwritten := (h.writtenManifest hnone (by simp [hpending]) content
          (s.journal ++ [.put (.manifest job) content (C.sizeOf content)])
          (fun path hne => objectState_concat_of_ne fun st hst => by cases hst; exact hne rfl)
          (.inl hstate)
          (by rw [hstate]; simp)).of_eq (t :=
            { s with
              manifests := s.manifests.write job content
              bytes := s.bytes + C.sizeOf content
              metas := s.metas.write job { registeredAt := some s.now }
              journal := s.journal ++ [.put (.manifest job) content (C.sizeOf content)] })
          ⟨rfl, rfl⟩ rfl rfl rfl rfl rfl rfl rfl
        exact ⟨hwritten.found (.manifest job) (by simp [ObjectStore.contentAt]), rfl⟩
      · exact (hundo (.inr (.inl hb)) _ _ s.broken s.stray).mono (fun _ _ h => h.elim) (fun _ _ h => h)
          fun _ h => h
      · exact (hundo (.inr (.inr (.inl happend))) _ _ s.broken s.stray).mono (fun _ _ h => h.elim)
          (fun _ _ h => h) fun _ h => h
      · exact (hundo (.inr (.inr (.inr happend))) _ _ true _).mono (fun _ _ h => h.elim)
          (fun _ _ h => h) fun _ h => h
    · exact (hundo (.inl (.inl hmeta)) _ s.metas s.broken s.stray).mono (fun _ _ h => h.elim)
        (fun _ _ h => h) fun _ h => h
    · exact (hundo (.inl (.inr hmeta)) _ _ s.broken s.stray).mono (fun _ _ h => h.elim)
        (fun _ _ h => h) fun _ h => h
  · refine iff_of_true ⟨h, rfl⟩ ?_
    rintro (hlate | ⟨hok, -⟩)
    · cases hwrite.symm.trans hlate
    · cases hwrite.symm.trans hok
  · refine iff_of_false (fun ht => ?_) fun hnot => hnot (.inl hwrite)
    have hdisk := diskBytes_writtenManifest (C := C) s hnone content
    have hbytes : s.bytes = { s with manifests := s.manifests.write job content }.diskBytes C := ht.1.bytes
    have hcounted := h.bytes
    omega

variable (C cfg) in
/-- **A registration goes wrong.** -/
def RegisterSlips (io : Io σ ι) (job : ι) (content : σ) (s : ObjectStore σ ι) : Prop :=
  (∃ t, untilWrite C cfg job content io s = (.returned true, t)) ∧ SlipsBehindWrite C io s job content

/-- **`registerManifest`**, to its end. -/
theorem registerManifest_accounts (h : Accounted C s) :
    Ends io (registerManifest C cfg job content) s
      (fun _ t => Accounted C t ∧ t.reserved = s.reserved)
      (fun _ t => Accounted C t ∧ t.reserved = s.reserved ↔ ¬ RegisterSlips C cfg io job content s)
      fun _ => True := by
  rw [registerManifest_eq, ends_bind]
  obtain ⟨hreturned, hthrown, -⟩ := ends_iff.1
    (untilWrite_ends h)
  refine ends_iff.2 ⟨fun r t heq => ?_, fun e t heq => ?_, fun _ _ => trivial⟩
  · have hr := hreturned r t heq
    cases r with
    | false => exact ⟨hr.accounted, hr.reserved⟩
    | true =>
      obtain ⟨hsteady, hbroken, hnow, hpending, hnone, ⟨d, hd⟩, hlive⟩ := hr
      have hslips : RegisterSlips C cfg io job content s ↔ SlipsBehindWrite C io t job content := by
        have hbehind : SlipsBehindWrite C io t job content ↔ SlipsBehindWrite C io s job content := by
          unfold SlipsBehindWrite RecordFails AppendFails
          rw [hbroken, hnow, hpending, hlive]
          simp
        rw [hbehind]
        exact ⟨And.right, fun hs => ⟨⟨t, heq⟩, hs⟩⟩
      rw [hslips, ← hsteady.reserved]
      exact writeAndJournal_ends hsteady.accounted ((hsteady.contents _).trans hnone) hpending
        (C.size_pos content d hd)
  · have ht := hthrown e t heq
    refine iff_of_true ⟨ht.accounted, ht.reserved⟩ ?_
    rintro ⟨⟨t', heq'⟩, -⟩
    cases heq.symm.trans heq'

end Register

/-! ### Whatever throws -/

/-- **The operations that change the store.** -/
inductive Mutation (σ ι : Type)
  | putBlob (sha body : σ) (declaredSize : Nat)
  | registerManifest (job : ι) (content : σ)
  | deleteObject (path : Path σ ι)
  | setJobState (job : ι) (field : StateField)
  deriving DecidableEq

namespace Mutation

variable (C cfg)

/-- The operation. -/
def run : Mutation σ ι → Op σ ι Bool
  | putBlob sha body declaredSize => Store.putBlob C cfg sha body declaredSize
  | registerManifest job content => Store.registerManifest C cfg job content
  | deleteObject path => Store.deleteObject C path
  | setJobState job field => Store.setJobState C job field

/-- **The branches that spoil the accounts.** -/
def Slips (io : Io σ ι) (s : ObjectStore σ ι) : Mutation σ ι → Prop
  | putBlob sha body declaredSize => PutSlips C cfg io sha body declaredSize s
  | registerManifest job content => RegisterSlips C cfg io job content s
  | deleteObject path => DeleteSlips C io path s
  | setJobState _ _ => False

end Mutation

/-- **Operations keep the accounts**, but where they slip. -/
theorem accounts_ends (h : Accounted C s) (op : Mutation σ ι) :
    Ends io (op.run C cfg) s (fun _ t => Accounted C t ∧ t.reserved = s.reserved)
      (fun _ t => Accounted C t ∧ t.reserved = s.reserved ↔ ¬ op.Slips C cfg io s) fun _ => True := by
  cases op with
  | putBlob sha body declaredSize => exact putBlob_accounts h
  | registerManifest job content => exact registerManifest_accounts h
  | deleteObject path => exact deleteObject_ends h path
  | setJobState job field =>
    exact (setJobState_accounted h job field).mono (fun _ t ht => ⟨ht.accounted, ht.reserved⟩)
      (fun _ t ht => iff_of_true ⟨ht.accounted, ht.reserved⟩ id) fun _ h => h

/-- An operation that returns leaves the accounts in order. -/
theorem accounts_after_return (h : Accounted C s) (op : Mutation σ ι) {r : Bool}
    (hreturn : op.run C cfg io s = (.returned r, t)) : Accounted C t :=
  ((ends_iff.1 (accounts_ends h op)).1 r t hreturn).1

/-- **Whatever call an operation throws at, the accounts are in order behind it exactly when it did
not slip.**  It slips when the unlink of an object is not synced, or the state of a cached job not
removed; when a manifest is written though its write throws, or its rollback does not take it
back or does not come to the count; and when a corrupt blob is replaced and the new one goes. -/
theorem accounts_after_throw (h : Accounted C s) (op : Mutation σ ι) {e : StoreError σ}
    (hthrow : op.run C cfg io s = (.thrown e, t)) :
    Accounted C t ∧ t.reserved = s.reserved ↔ ¬ op.Slips C cfg io s :=
  (ends_iff.1 (accounts_ends h op)).2.1 e t hthrow

/-- An empty store is in order. -/
theorem accounted_empty : Accounted C ({} : ObjectStore σ ι) where
  blobsOnce := List.nodup_nil
  manifestsOnce := List.nodup_nil
  bytes := rfl
  blobs _ := nofun
  manifests _ _ := nofun
  gone _ _ := nofun
  intents _ := nofun
  pending _ := nofun
  cache _ := nofun

/-- An upload whose record cannot be appended leaves nothing behind. -/
theorem accounts_after_throw_append :
    ∃ t, (Mutation.putBlob 5 5 1).run smallContents smallConfig
        (failsAt (.append (.put (.blob 5) 5 1)) .fails) ({} : ObjectStore Nat Nat) = (.thrown .io, t) ∧
      (Accounted smallContents t ∧ t.reserved = 0 ↔ ¬ (Mutation.putBlob 5 5 1).Slips smallContents
        smallConfig (failsAt (.append (.put (.blob 5) 5 1)) .fails) ({} : ObjectStore Nat Nat)) :=
  ⟨_, rfl, accounts_after_throw accounted_empty (.putBlob 5 5 1) rfl⟩

/-- **The accounts are not always in order behind a throw**: a blob whose unlink cannot be synced is
gone and is still counted. -/
theorem accounts_not_kept :
    ¬ ∀ (s t : ObjectStore Nat Nat) (op : Mutation Nat Nat) (io : Io Nat Nat) (e : StoreError Nat),
      Accounted smallContents s → op.run smallContents smallConfig io s = (.thrown e, t) →
        Accounted smallContents t ∧ t.reserved = s.reserved := by
  intro hall
  let stored := ((Mutation.putBlob 5 5 1).run smallContents smallConfig allOk
    ({} : ObjectStore Nat Nat)).2
  have hrun : (Mutation.putBlob 5 5 1).run smallContents smallConfig allOk
    ({} : ObjectStore Nat Nat) = (.returned true, stored) := rfl
  have hstored : Accounted smallContents stored := accounts_after_return accounted_empty _ hrun
  obtain ⟨hafter, -⟩ := hall stored _ (.deleteObject (.blob 5))
    (failsAt (.syncDirectory (.blob 5)) .fails) .io hstored rfl
  exact absurd hafter.bytes (by decide)

end Store
end LaneBroker
