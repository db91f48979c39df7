/-
# Uploads and registrations at once

`putBlob` of `store/objects.js` awaits: while one upload streams its body others start, end
and are registered with manifests.  Between two awaits it runs alone, so a run of the store is
a sequence of such sections (`Uploading.next`), each of which may throw at any of its calls.
`landUpload` is the last one, and `storeBlob` is the sections in a row (`storeBlob_eq_land`).

What is counted is kept below the threshold by every section (`below_next`), and what is on
the disk is counted, but for a manifest whose write throws behind its rename: it stays and
nobody counts it (`not_forall_below`).  In runs without one (`WritesCounted`) the disk and the
reservations stay below the threshold, and the reservations are given back (`stays_below`).
-/

import LaneBroker.Store.Accounting

namespace LaneBroker
namespace Store

open LaneBroker.Basis Fallible

variable {σ ι : Type}

/-- **Where an upload is** when it awaits. -/
inductive Phase
  /-- The first `intactBlob`, and what it will tell. -/
  | checking (intact : Bool)
  /-- The body is read for a blob that is there. -/
  | acknowledging
  /-- The body is written to `tmp/`; so much has come. -/
  | streaming (size : Nat)
  /-- What was written is hashed. -/
  | hashing (size : Nat)
  /-- The second `intactBlob`. -/
  | rechecking (intact : Bool)
  /-- It has thrown, and its `finally` is to come. -/
  | failing
  deriving DecidableEq, Repr

/-- **An upload**: a call of `putBlob`. -/
structure Upload (σ : Type) where
  sha : σ
  declaredSize : Nat
  phase : Phase
  deriving DecidableEq, Repr

/-- What it holds of the reservations. -/
def Upload.held (u : Upload σ) : Int :=
  match u.phase with
  | .checking _ | .acknowledging => 0
  | .streaming _ | .hashing _ | .rechecking _ | .failing => u.declaredSize

/-- **A store with its uploads**, under the numbers of their requests. -/
structure Uploading (σ ι : Type) where
  store : ObjectStore σ ι
  uploads : Dir ℕ (Upload σ) := .empty
  deriving DecidableEq, Repr

/-- **The sections**, with the answers of their calls. -/
inductive UploadAct (σ ι : Type)
  /-- A call of `putBlob`. -/
  | put (n : ℕ) (sha : σ) (declaredSize : Nat) (io : Io σ ι)
  | checked (n : ℕ) (io : Io σ ι)
  | acknowledge (n : ℕ) (body : σ) (io : Io σ ι)
  | chunk (n : ℕ) (length : Nat)
  /-- The body is at its end, written, synced and closed. -/
  | written (n : ℕ)
  | hashed (n : ℕ) (onDisk : σ) (io : Io σ ι)
  | land (n : ℕ) (io : Io σ ι)
  /-- What is awaited throws. -/
  | fail (n : ℕ)
  /-- The `finally` of an upload that threw. -/
  | finish (n : ℕ) (io : Io σ ι)
  | register (job : ι) (content : σ) (io : Io σ ι)
  | tick (now : Int)

section Sections

variable [DecidableEq σ] [DecidableEq ι] (C : Contents σ) (cfg : Config)

/-- **The last section of `putBlob`**: another upload of the blob was faster, or it is stored. -/
def landUpload (sha : σ) (declaredSize : Nat) (intact : Bool) : Op σ ι Bool :=
  if intact then do
    stamp sha
    journalIfNeeded C sha
    return false
  else do
    let replaced := (← sizeOnDisk C (.blob sha)).getD 0
    let s ← Fallible.get
    if cfg.aboveAdmission (s.bytes + C.sizeOf sha + (s.reserved - declaredSize)) then
      Fallible.raise .aboveCap
    else
      flushPendingDeletes
      renameAndCommit C sha replaced

/-- The `finally` of `putBlob`. -/
def releaseUpload (sha : σ) (declaredSize : Nat) : Op σ ι Unit := do
  Fallible.modify fun s => { s with reserved := s.reserved - declaredSize }
  Fallible.call (.removeTmp sha) .io id

namespace Uploading

/-- A section runs an operation; when the process dies, the run is over. -/
def run {α : Type} (s : Uploading σ ι) (op : Op σ ι α) (io : Io σ ι)
    (returned : α → Dir ℕ (Upload σ)) (thrown : Dir ℕ (Upload σ)) : Option (Uploading σ ι) :=
  match op io s.store with
  | (.returned a, store) => some { store, uploads := returned a }
  | (.thrown _, store) => some { store, uploads := thrown }
  | (.died, _) => none

/-- The upload goes on. -/
def goes (s : Uploading σ ι) (n : ℕ) (u : Upload σ) (phase : Phase) : Dir ℕ (Upload σ) :=
  s.uploads.write n { u with phase }

/-- The upload has ended. -/
def ends (s : Uploading σ ι) (n : ℕ) : Dir ℕ (Upload σ) := s.uploads.unlink n

/-- The section of an upload that awaits. -/
def nextOf (s : Uploading σ ι) (n : ℕ) (u : Upload σ) : UploadAct σ ι → Option (Uploading σ ι)
  | .checked _ io =>
    match u.phase with
    | .checking true => some { s with uploads := s.goes n u .acknowledging }
    | .checking false =>
      s.run (reserve cfg u.declaredSize) io (fun _ => s.goes n u (.streaming 0)) (s.ends n)
    | _ => none
  | .acknowledge _ body io =>
    match u.phase with
    | .acknowledging =>
      s.run (acknowledgeDuplicate C u.sha body) io (fun _ => s.ends n) (s.ends n)
    | _ => none
  | .chunk _ length =>
    match u.phase with
    | .streaming size =>
      let phase := if cfg.maxBlobBytes < size + length then .failing else .streaming (size + length)
      some { s with uploads := s.goes n u phase }
    | _ => none
  | .written _ =>
    match u.phase with
    | .streaming size => some { s with uploads := s.goes n u (.hashing size) }
    | _ => none
  | .hashed _ onDisk io =>
    match u.phase with
    | .hashing size =>
      if C.sizeOf onDisk ≠ size ∨ onDisk ≠ u.sha then
        some { s with uploads := s.goes n u .failing }
      else
        s.run (intactBlob C u.sha size) io (fun intact => s.goes n u (.rechecking intact))
          (s.goes n u .failing)
    | _ => none
  | .land _ io =>
    match u.phase with
    | .rechecking intact =>
      s.run
        (Fallible.ensuring (landUpload C cfg u.sha u.declaredSize intact)
          (releaseUpload u.sha u.declaredSize))
        io (fun _ => s.ends n) (s.ends n)
    | _ => none
  | .fail _ =>
    match u.phase with
    | .checking _ | .acknowledging => some { s with uploads := s.ends n }
    | _ => some { s with uploads := s.goes n u .failing }
  | .finish _ io =>
    match u.phase with
    | .failing => s.run (releaseUpload u.sha u.declaredSize) io (fun _ => s.ends n) (s.ends n)
    | _ => none
  | _ => none

/-- **One section.** -/
def next (s : Uploading σ ι) (a : UploadAct σ ι) : Option (Uploading σ ι) :=
  match a with
  | .put n sha declaredSize io =>
    if (s.uploads.read n).isSome then none
    else if cfg.maxBlobBytes < declaredSize then some s
    else
      s.run (intactBlob C sha declaredSize) io
        (fun intact => s.uploads.write n { sha, declaredSize, phase := .checking intact }) s.uploads
  | .register job content io =>
    s.run (registerManifest C cfg job content) io (fun _ => s.uploads) s.uploads
  | .tick now => some { s with store := { s.store with now } }
  | .checked n _ | .acknowledge n _ _ | .chunk n _ | .written n | .hashed n _ _ | .land n _
  | .fail n | .finish n _ => (s.uploads.read n).bind fun u => s.nextOf C cfg n u a

end Uploading

/-- **The runs of a store** from this state on. -/
def uploading (start : ObjectStore σ ι) : Machine (Uploading σ ι) (UploadAct σ ι) where
  start s := s = { store := start }
  next := Uploading.next C cfg

/-- **The condition**: no registration gets to its write and has it throw behind the rename. -/
def WritesCounted (s : Uploading σ ι) : UploadAct σ ι → Prop
  | .register job content io =>
    (untilWrite C cfg job content io s.store).1 = .returned true →
      io (.writeManifest job) ≠ .failsLate
  | _ => True

end Sections

variable [DecidableEq σ] [DecidableEq ι] {C : Contents σ} {cfg : Config} {s t : ObjectStore σ ι}
  {io : Io σ ι} {bytes reserved disk : Int}

/-! ### What the operations count -/

theorem aboveAdmission_mono {b b' : Int} (hle : b ≤ b') (h : cfg.aboveAdmission b' = false) :
    cfg.aboveAdmission b = false := by
  unfold Config.aboveAdmission at h ⊢
  cases hcap : cfg.capBytes with
  | none => rfl
  | some cap =>
    rw [hcap] at h
    have hroom : ¬ 95 * (cap : Int) ≤ 100 * b' := of_decide_eq_false h
    exact decide_eq_false (by omega)

variable (C) in
/-- **What is counted, what is reserved, and what is on the disk.** -/
structure Tally (bytes reserved disk : Int) (s : ObjectStore σ ι) : Prop where
  blobsOnce : s.blobs.Once
  manifestsOnce : s.manifests.Once
  bytes : s.bytes = bytes
  reserved : s.reserved = reserved
  disk : s.diskBytes C = disk

/-- **A property of the objects and of the two counts.** -/
def OfCounts (P : ObjectStore σ ι → Prop) : Prop :=
  ∀ s t, SameObjects s t → t.bytes = s.bytes → t.reserved = s.reserved → P s → P t

omit [DecidableEq σ] [DecidableEq ι] in
theorem tally_ofCounts :
    OfCounts (Tally C bytes reserved disk : ObjectStore σ ι → Prop) :=
  fun _ _ hfiles hbytes hreserved h =>
    { blobsOnce := hfiles.blobs ▸ h.blobsOnce
      manifestsOnce := hfiles.manifests ▸ h.manifestsOnce
      bytes := hbytes.trans h.bytes
      reserved := hreserved.trans h.reserved
      disk := (diskBytes_congr hfiles).trans h.disk }

section Quiet

variable {P : ObjectStore σ ι → Prop} (hP : OfCounts P)

include hP

omit [DecidableEq σ] [DecidableEq ι] in
theorem quiet_append (f : Fields σ ι) : Keeps P (append f) := by
  intro io s hs
  unfold append Ends
  dsimp only
  split_ifs
  · exact hs
  · cases io (.append f) <;> exact hP s _ ⟨rfl, rfl⟩ rfl rfl hs

theorem quiet_flush : Keeps P (flushPendingDeletes : Op σ ι Unit) :=
  keeps_get.bind fun _ => keeps_forM _ fun _ => (quiet_append hP _).bind fun _ =>
    keeps_modify fun s hs => hP s _ ⟨rfl, rfl⟩ rfl rfl hs

theorem quiet_cancelIntent (path : Path σ ι) : Keeps P (cancelIntent path) := by
  refine keeps_get.bind fun s => ?_
  split_ifs
  · exact (quiet_append hP _).bind fun _ => keeps_modify fun s hs => hP s _ ⟨rfl, rfl⟩ rfl rfl hs
  · exact keeps_pure _

theorem quiet_journalBlob (sha : σ) : Keeps P (journalBlob C sha : Op σ ι Unit) :=
  keeps_ask.bind fun _ => (quiet_append hP _).bind fun _ =>
    keeps_modify fun s hs => hP s _ ⟨rfl, rfl⟩ rfl rfl hs

theorem quiet_journalIfNeeded (sha : σ) : Keeps P (journalIfNeeded C sha : Op σ ι Unit) := by
  refine keeps_get.bind fun s => ?_
  split_ifs
  · exact quiet_journalBlob hP sha
  · exact keeps_pure _

theorem quiet_commitBlob {sha : σ} (hstamp : Keeps P (stamp sha : Op σ ι Unit)) :
    Keeps P (commitBlob C sha : Op σ ι Unit) :=
  hstamp.bind fun _ => (keeps_call fun _ hs => hs).bind fun _ =>
    (quiet_journalBlob hP sha).bind fun _ =>
      keeps_modify fun s hs => hP s _ ⟨rfl, rfl⟩ rfl rfl hs

end Quiet

omit [DecidableEq ι] in
theorem tally_stamp (sha : σ) :
    Keeps (Tally C bytes reserved disk) (stamp sha : Op σ ι Unit) := by
  refine keeps_call fun s hs => ?_
  cases hread : s.blobs.read sha with
  | none => exact hs
  | some f =>
    have htotal := Dir.total_unlink (fun f => (C.sizeOf f.content : Int)) hs.blobsOnce sha
    refine ⟨hs.blobsOnce.write _ _, hs.manifestsOnce, hs.bytes, hs.reserved, ?_⟩
    rw [← hs.disk, diskBytes_eq, diskBytes_eq, Dir.total_write, ← htotal, hread]
    rfl

theorem tally_acknowledgeDuplicate (sha body : σ) :
    Keeps (Tally C bytes reserved disk) (acknowledgeDuplicate C sha body : Op σ ι Bool) := by
  refine (keeps_call fun _ hs => hs).bind fun _ => ?_
  split_ifs
  · exact keeps_raise _
  · refine keeps_ask.bind fun there => ?_
    split_ifs
    · exact keeps_raise _
    · exact (tally_stamp sha).bind fun _ =>
        (quiet_journalIfNeeded tally_ofCounts sha).bind fun _ =>
          (quiet_cancelIntent tally_ofCounts _).bind fun _ => keeps_pure _

/-! ### Landing -/

variable (C) in
/-- **A blob is in its place**: without it there is so much less on the disk. -/
structure Landed (bytes reserved disk : Int) (sha : σ) (s : ObjectStore σ ι) : Prop where
  tally : Tally C bytes reserved disk s
  without : Tally C bytes reserved (disk - C.sizeOf sha) { s with blobs := s.blobs.unlink sha }

omit [DecidableEq ι] in
theorem landed_ofCounts (sha : σ) :
    OfCounts (Landed C bytes reserved disk sha : ObjectStore σ ι → Prop) := by
  intro s t hfiles hbytes hreserved h
  refine ⟨tally_ofCounts s t hfiles hbytes hreserved h.tally,
    tally_ofCounts { s with blobs := s.blobs.unlink sha } _ ⟨?_, hfiles.manifests⟩ hbytes hreserved
      h.without⟩
  exact congrArg (Dir.unlink · sha) hfiles.blobs

omit [DecidableEq ι] in
theorem landed_stamp (sha : σ) :
    Keeps (Landed C bytes reserved disk sha) (stamp sha : Op σ ι Unit) := by
  intro io s hs
  refine ((tally_stamp sha io s hs.tally).and ?_).mono (fun _ t ht => ⟨ht.1, ht.2⟩)
    (fun _ t ht => ⟨ht.1, ht.2⟩) fun t ht => ⟨ht.1, ht.2⟩
  refine ends_call (fun _ => ?_) (fun _ => hs.without) fun _ => hs.without
  cases hread : s.blobs.read sha with
  | none => exact hs.without
  | some f =>
    refine tally_ofCounts { s with blobs := s.blobs.unlink sha } _ ⟨?_, rfl⟩ rfl rfl hs.without
    exact Dir.unlink_write _ _ _

variable (C cfg) in
/-- **More is counted than is stored, and there was room for it**, where so much is to be given
back. -/
def Grown (bytes reserved disk held : Int) (s : ObjectStore σ ι) : Prop :=
  ∃ counted stored : Int, Tally C (bytes + counted) reserved (disk + stored) s ∧
    stored ≤ counted ∧
      (counted ≤ 0 ∨ cfg.aboveAdmission (bytes + counted + (reserved - held)) = false)

omit [DecidableEq σ] [DecidableEq ι] in
theorem Tally.grown (h : Tally C bytes reserved disk s) (held : Int) :
    Grown C cfg bytes reserved disk held s :=
  ⟨0, 0, by simpa using h, le_rfl, .inl le_rfl⟩

/-- **The rename and what is behind it.** -/
theorem renameAndCommit_grown (h : Tally C bytes reserved disk s) {sha : σ} {replaced : Nat}
    {held : Int} (hreplaced : replaced = (s.sizeOnDisk C (.blob sha)).getD 0)
    (hroom : cfg.aboveAdmission (bytes + C.sizeOf sha + (reserved - held)) = false) :
    Ends io (renameAndCommit C sha replaced) s (fun _ => Grown C cfg bytes reserved disk held)
      (fun _ => Grown C cfg bytes reserved disk held) fun _ => True := by
  have hpos : (0 : Int) ≤ replaced := Int.natCast_nonneg _
  have hgrown : ∀ t : ObjectStore σ ι, Tally C (bytes + (C.sizeOf sha - replaced)) reserved
      (disk + (C.sizeOf sha - replaced)) t → Grown C cfg bytes reserved disk held t := fun t ht =>
    ⟨_, _, ht, le_rfl, .inr (aboveAdmission_mono (by omega) hroom)⟩
  unfold renameAndCommit renameBlob
  rw [ends_bind, ends_bind]
  refine ends_call (fun _ => ?_) (fun _ => h.grown held) fun _ => trivial
  rw [ends_modify, ends_bind, ends_handle]
  have hlanded : Landed C (bytes + (C.sizeOf sha - replaced)) reserved
      (disk + (C.sizeOf sha - replaced)) sha
      { s with
        blobs := s.blobs.write sha { content := sha, mtime := s.now }
        bytes := s.bytes + (C.sizeOf sha - replaced) } := by
    have htotal := Dir.total_unlink (fun f => (C.sizeOf f.content : Int)) h.blobsOnce sha
    have hthere : (((s.blobs.read sha).map fun f => (C.sizeOf f.content : Int)).getD 0) =
        (replaced : Int) := by
      rw [hreplaced, ObjectStore.sizeOnDisk]
      cases s.blobs.read sha <;> rfl
    have hdisk := h.disk
    rw [diskBytes_eq] at hdisk
    refine ⟨⟨h.blobsOnce.write _ _, h.manifestsOnce, by rw [h.bytes], h.reserved, ?_⟩,
      ⟨(h.blobsOnce.write _ _).unlink _, h.manifestsOnce, by rw [h.bytes], h.reserved, ?_⟩⟩
    · rw [diskBytes_eq, Dir.total_write]
      dsimp only
      omega
    · rw [diskBytes_eq]
      dsimp only
      rw [Dir.unlink_write]
      omega
  refine (quiet_commitBlob (landed_ofCounts sha) (landed_stamp sha) io _ hlanded).mono
    (fun _ t ht => hgrown t ht.tally) (fun e t ht => ?_) fun _ _ => trivial
  unfold undoBlob
  rw [ends_bind, ends_handle, ends_bind]
  refine ends_call (fun _ => ?_) (fun _ => ?_) fun _ => trivial
  · refine ⟨-replaced, -replaced, ?_, le_rfl, .inl (by omega)⟩
    have hwithout := ht.without
    refine ⟨hwithout.blobsOnce, hwithout.manifestsOnce, ?_, hwithout.reserved, ?_⟩
    · have hbytes := hwithout.bytes
      dsimp only at hbytes ⊢
      omega
    · have hdisk := hwithout.disk
      rw [diskBytes_eq] at hdisk ⊢
      dsimp only at hdisk ⊢
      omega
  · exact hgrown _ (tally_ofCounts t _ ⟨rfl, rfl⟩ rfl rfl ht.tally)

/-- **The last section of an upload** leaves room for the reservations of the others. -/
theorem landUpload_grown (h : Tally C bytes reserved disk s) (sha : σ) (declaredSize : Nat)
    (intact : Bool) :
    Ends io (landUpload C cfg sha declaredSize intact) s
      (fun _ => Grown C cfg bytes reserved disk declaredSize)
      (fun _ => Grown C cfg bytes reserved disk declaredSize) fun _ => True := by
  unfold landUpload
  split_ifs
  · have hquiet : Keeps (Tally C bytes reserved disk) (do
        stamp sha
        journalIfNeeded C sha
        return false : Op σ ι Bool) :=
      (tally_stamp sha).bind fun _ => (quiet_journalIfNeeded tally_ofCounts sha).bind fun _ =>
        keeps_pure _
    exact (hquiet io s h).mono (fun _ _ ht => ht.grown _) (fun _ _ ht => ht.grown _)
      fun _ _ => trivial
  · refine ends_ask_bind ?_ (h.grown _) trivial
    rw [ends_bind, ends_get]
    split_ifs with hroom
    · exact h.grown _
    · rw [Bool.not_eq_true, h.bytes, h.reserved] at hroom
      have hsame : OfCounts fun t : ObjectStore σ ι =>
          Tally C bytes reserved disk t ∧ t.blobs = s.blobs := fun t u hfiles hb hr ht =>
        ⟨tally_ofCounts t u hfiles hb hr ht.1, hfiles.blobs.trans ht.2⟩
      rw [ends_bind]
      refine (quiet_flush hsame io s ⟨h, rfl⟩).mono (fun _ t ht => ?_) (fun _ t ht => ht.1.grown _)
        fun _ _ => trivial
      refine renameAndCommit_grown ht.1 ?_ hroom
      rw [ObjectStore.sizeOnDisk, ObjectStore.sizeOnDisk, ht.2]

/-! ### Registering -/

section Register

variable {job : ι} {content : σ}

/-- **The way to the first write** counts nothing, and there is room for what is written. -/
theorem untilWrite_tally (h : Tally C bytes reserved disk s) :
    Ends io (untilWrite C cfg job content) s
      (fun written t => Tally C bytes reserved disk t ∧ (written = true →
        t.manifests.read job = none ∧
          cfg.aboveAdmission (bytes + reserved + C.sizeOf content) = false))
      (fun _ => Tally C bytes reserved disk) fun _ => True := by
  unfold untilWrite
  dsimp only
  split_ifs
  · exact h
  · cases C.parseManifestDoc content with
    | none => exact h
    | some doc =>
      dsimp only
      rw [ends_bind]
      refine (readManifest_ends s io job).mono (fun existing t ht => ?_)
        (fun _ t ht => ht ▸ h) fun _ _ => trivial
      obtain ⟨rfl, -, hnone⟩ := ht
      cases existing with
      | some existing =>
        dsimp only
        split_ifs
        · exact h
        · exact ⟨h, fun hwritten => by cases hwritten⟩
      | none =>
        dsimp only
        rw [ends_bind]
        refine (missingFiles_ends t io doc.files).mono (fun missing u hu => ?_)
          (fun _ u hu => hu ▸ h) fun _ _ => trivial
        obtain ⟨rfl, -⟩ := hu
        split_ifs
        · exact h
        · rw [ends_bind, ends_get]
          split_ifs with hroom
          · exact h
          · rw [Bool.not_eq_true, h.bytes, h.reserved] at hroom
            have hsame : OfCounts fun v : ObjectStore σ ι =>
                Tally C bytes reserved disk v ∧ v.manifests = u.manifests :=
              fun v w hfiles hb hr hv =>
                ⟨tally_ofCounts v w hfiles hb hr hv.1, hfiles.manifests.trans hv.2⟩
            have hjournal := keeps_forM doc.blobs fun sha =>
              quiet_journalIfNeeded (C := C) hsame sha
            have hcancel := keeps_forM doc.blobs fun sha => quiet_cancelIntent hsame (.blob sha)
            have hquiet := (quiet_flush hsame).bind fun _ => hjournal.bind fun _ =>
              hcancel.bind fun _ => keeps_pure true
            refine (hquiet io u ⟨h, rfl⟩).mono (fun _ v hv => ?_) (fun _ v hv => hv.1)
              fun _ _ => trivial
            exact ⟨hv.1, fun _ => ⟨hv.2 ▸ hnone rfl, hroom⟩⟩

variable (C) in
/-- **A manifest is in its place**: without it there is so much less on the disk. -/
structure Written (bytes reserved disk : Int) (job : ι) (content : σ) (s : ObjectStore σ ι) :
    Prop where
  tally : Tally C bytes reserved (disk + C.sizeOf content) s
  without : Tally C bytes reserved disk { s with manifests := s.manifests.unlink job }

omit [DecidableEq σ] in
theorem written_ofCounts :
    OfCounts (Written C bytes reserved disk job content : ObjectStore σ ι → Prop) := by
  intro s t hfiles hbytes hreserved h
  refine ⟨tally_ofCounts s t hfiles hbytes hreserved h.tally,
    tally_ofCounts { s with manifests := s.manifests.unlink job } _ ⟨hfiles.blobs, ?_⟩ hbytes
      hreserved h.without⟩
  exact congrArg (Dir.unlink · job) hfiles.manifests

omit [DecidableEq σ] in
/-- **The rollback of a registration**: what is gone may stay counted. -/
theorem undoManifest_grown
    (h : Written C (bytes + C.sizeOf content) reserved disk job content s)
    (hroom : cfg.aboveAdmission (bytes + reserved + C.sizeOf content) = false) (e : StoreError σ) :
    Ends io
      (do
        undoManifest job (C.sizeOf content)
        Fallible.raise e : Op σ ι Unit) s
      (fun _ _ => False) (fun _ => Grown C cfg bytes reserved disk 0) fun _ => True := by
  have hpos : (0 : Int) ≤ C.sizeOf content := Int.natCast_nonneg _
  have hfits : cfg.aboveAdmission (bytes + C.sizeOf content + (reserved - 0)) = false :=
    aboveAdmission_mono (by omega) hroom
  refine ends_bind.2 (ends_bind.2 (ends_call (fun _ => ?_) (fun _ => ?_) fun _ => trivial))
  · rw [ends_bind]
    refine ends_call (fun _ => ?_) (fun _ => ?_) fun _ => trivial
    · refine Tally.grown ?_ 0
      have hwithout := h.without
      refine ⟨hwithout.blobsOnce, hwithout.manifestsOnce, ?_, hwithout.reserved, hwithout.disk⟩
      have hbytes := hwithout.bytes
      dsimp only at hbytes ⊢
      omega
    · exact ⟨C.sizeOf content, 0, by simpa using h.without, hpos, .inr hfits⟩
  · exact ⟨_, _, h.tally, le_rfl, .inr hfits⟩

/-- **The write and what is behind it**, unless the write throws behind its rename. -/
theorem writeAndJournal_grown (h : Tally C bytes reserved disk s)
    (hnone : s.manifests.read job = none)
    (hroom : cfg.aboveAdmission (bytes + reserved + C.sizeOf content) = false)
    (hcounted : io (.writeManifest job) ≠ .failsLate) :
    Ends io (writeAndJournal C job content) s (fun _ => Grown C cfg bytes reserved disk 0)
      (fun _ => Grown C cfg bytes reserved disk 0) fun _ => True := by
  unfold writeAndJournal writeManifest
  rw [ends_bind]
  refine ends_write (fun _ => ?_) (fun _ => h.grown 0) (fun hlate => absurd hlate hcounted)
    fun _ => trivial
  rw [ends_bind, ends_modify, ends_bind, ends_handle]
  have hwritten : Written C (bytes + C.sizeOf content) reserved disk job content
      { s with
        manifests := s.manifests.write job content
        bytes := s.bytes + C.sizeOf content } := by
    have hdisk := h.disk
    rw [diskBytes_eq] at hdisk
    refine ⟨⟨h.blobsOnce, h.manifestsOnce.write _ _, by rw [h.bytes], h.reserved, ?_⟩,
      ⟨h.blobsOnce, (h.manifestsOnce.write _ _).unlink _, by rw [h.bytes], h.reserved, ?_⟩⟩
    · rw [diskBytes_eq, Dir.total_write, Dir.unlink_of_read_none hnone]
      dsimp only
      omega
    · rw [diskBytes_eq]
      dsimp only
      rw [Dir.unlink_write, Dir.unlink_of_read_none hnone]
      exact hdisk
  have hmeta : ∀ m, Keeps (Written C (bytes + C.sizeOf content) reserved disk job content)
      (writeMeta job m : Op σ ι Unit) := fun m =>
    keeps_write fun t ht => written_ofCounts t _ ⟨rfl, rfl⟩ rfl rfl ht
  have hquiet : Keeps (Written C (bytes + C.sizeOf content) reserved disk job content) (do
      let s ← Fallible.get
      writeMeta job { registeredAt := some s.now }
      append (.put (.manifest job) content (C.sizeOf content)) : Op σ ι Unit) :=
    keeps_get.bind fun _ => (hmeta _).bind fun _ => quiet_append written_ofCounts _
  refine (hquiet io _ hwritten).mono (fun _ t ht => ?_) (fun e t ht => ?_) fun _ _ => trivial
  · have hfits : cfg.aboveAdmission (bytes + C.sizeOf content + (reserved - 0)) = false :=
      aboveAdmission_mono (by omega) hroom
    rw [ends_bind, ends_modify, ends_pure]
    exact ⟨_, _, tally_ofCounts t _ ⟨rfl, rfl⟩ rfl rfl ht.tally, le_rfl, .inr hfits⟩
  · exact (undoManifest_grown ht hroom e).mono (fun _ _ hu => hu.elim) (fun _ _ hu => hu)
      fun _ hu => hu

/-- **A registration**, to its end. -/
theorem registerManifest_grown (h : Tally C bytes reserved disk s)
    (hcounted : WritesCounted C cfg { store := s } (.register job content io)) :
    Ends io (registerManifest C cfg job content) s (fun _ => Grown C cfg bytes reserved disk 0)
      (fun _ => Grown C cfg bytes reserved disk 0) fun _ => True := by
  have huntil : Ends io (untilWrite C cfg job content) s _ _ _ := untilWrite_tally h
  obtain ⟨hreturned, hthrown, -⟩ := ends_iff.1 huntil
  rw [registerManifest_eq, ends_bind]
  refine ends_iff.2 ⟨fun written t heq => ?_, fun e t heq => (hthrown e t heq).grown 0,
    fun _ _ => trivial⟩
  obtain ⟨ht, hwritten⟩ := hreturned written t heq
  cases written with
  | false => exact ht.grown 0
  | true =>
    obtain ⟨hnone, hroom⟩ := hwritten rfl
    exact writeAndJournal_grown ht hnone hroom (hcounted (by rw [heq]))

end Register

/-! ### Runs -/

/-- **What every section keeps**: the uploads hold what is reserved, there is room for it, and what
is on the disk is counted. -/
structure Below (C : Contents σ) (cfg : Config) (initial : Int) (s : Uploading σ ι) : Prop where
  once : s.uploads.Once
  reserved : s.store.reserved = initial + s.uploads.total Upload.held
  blobsOnce : s.store.blobs.Once
  manifestsOnce : s.store.manifests.Once
  room : cfg.aboveAdmission (s.store.bytes + s.store.reserved) = false
  disk : s.store.diskBytes C ≤ s.store.bytes

/-- **How a section leaves the store** that gives back what an upload held. -/
structure Leaves (C : Contents σ) (cfg : Config) (s : ObjectStore σ ι) (held : Int)
    (t : ObjectStore σ ι) : Prop where
  blobsOnce : t.blobs.Once
  manifestsOnce : t.manifests.Once
  reserved : t.reserved = s.reserved - held
  room : t.bytes + t.reserved ≤ s.bytes + s.reserved ∨
    cfg.aboveAdmission (t.bytes + t.reserved) = false
  disk : t.diskBytes C - t.bytes ≤ s.diskBytes C - s.bytes

section Leaving

omit [DecidableEq σ] [DecidableEq ι] in
theorem Tally.leaves (h : Tally C s.bytes s.reserved (s.diskBytes C) t) : Leaves C cfg s 0 t where
  blobsOnce := h.blobsOnce
  manifestsOnce := h.manifestsOnce
  reserved := by rw [h.reserved, Int.sub_zero]
  room := .inl (by rw [h.bytes, h.reserved])
  disk := by rw [h.bytes, h.disk]

omit [DecidableEq σ] [DecidableEq ι] in
theorem Grown.leaves {held : Int} (hheld : 0 ≤ held)
    (h : Grown C cfg s.bytes s.reserved (s.diskBytes C) held t) (hfiles : SameObjects t u)
    (hbytes : u.bytes = t.bytes) (hreserved : u.reserved = t.reserved - held) :
    Leaves C cfg s held u := by
  obtain ⟨counted, stored, ht, hle, hroom⟩ := h
  have htbytes := ht.bytes
  have htreserved := ht.reserved
  refine ⟨hfiles.blobs ▸ ht.blobsOnce, hfiles.manifests ▸ ht.manifestsOnce, ?_, ?_, ?_⟩
  · omega
  · rcases hroom with hless | hroom
    · exact .inl (by omega)
    · exact .inr (aboveAdmission_mono (by omega) hroom)
  · rw [diskBytes_congr hfiles, ht.disk]
    omega

omit [DecidableEq σ] [DecidableEq ι] in
theorem reserve_leaves (h : Tally C s.bytes s.reserved (s.diskBytes C) s) (n : Nat) :
    Ends io (reserve cfg n) s (fun _ => Leaves C cfg s (-n)) (fun _ => Leaves C cfg s 0)
      fun _ => True := by
  unfold reserve
  rw [ends_bind, ends_get]
  split_ifs with hroom
  · exact h.leaves
  · rw [Bool.not_eq_true] at hroom
    rw [ends_modify]
    refine ⟨h.blobsOnce, h.manifestsOnce, (Int.sub_neg _ _).symm, .inr ?_, le_rfl⟩
    exact aboveAdmission_mono (by dsimp only; omega) hroom

omit [DecidableEq σ] [DecidableEq ι] in
theorem releaseUpload_leaves (sha : σ) (declaredSize : Nat)
    (h : Grown C cfg s.bytes s.reserved (s.diskBytes C) declaredSize t) :
    Ends io (releaseUpload sha declaredSize) t (fun _ => Leaves C cfg s declaredSize)
      (fun _ => Leaves C cfg s declaredSize) fun _ => True := by
  unfold releaseUpload
  rw [ends_bind, ends_modify]
  have hleaves : Leaves C cfg s declaredSize { t with reserved := t.reserved - declaredSize } :=
    h.leaves (Int.natCast_nonneg _) ⟨rfl, rfl⟩ rfl rfl
  exact ends_call (fun _ => hleaves) (fun _ => hleaves) fun _ => trivial

/-- **An upload lands**, or it does not, and gives back its own reservation. -/
theorem landUpload_leaves (h : Tally C s.bytes s.reserved (s.diskBytes C) s) (sha : σ)
    (declaredSize : Nat) (intact : Bool) :
    Ends io
      (Fallible.ensuring (landUpload C cfg sha declaredSize intact)
        (releaseUpload sha declaredSize))
      s (fun _ => Leaves C cfg s declaredSize) (fun _ => Leaves C cfg s declaredSize)
      fun _ => True :=
  ends_ensuring.2 ((landUpload_grown h sha declaredSize intact).mono
    (fun _ _ ht => releaseUpload_leaves sha declaredSize ht)
    (fun _ _ ht => releaseUpload_leaves sha declaredSize ht) fun _ ht => ht)

end Leaving

section Runs

variable {initial : Int} {v w : Uploading σ ι} {n : ℕ} {u : Upload σ}

omit [DecidableEq σ] [DecidableEq ι] in
theorem Below.tally (h : Below C cfg initial v) :
    Tally C v.store.bytes v.store.reserved (v.store.diskBytes C) v.store :=
  ⟨h.blobsOnce, h.manifestsOnce, rfl, rfl, rfl⟩

omit [DecidableEq σ] [DecidableEq ι] in
theorem Below.leaves (h : Below C cfg initial v) {held : Int} {uploads : Dir ℕ (Upload σ)}
    (ht : Leaves C cfg v.store held t) (honce : uploads.Once)
    (htotal : uploads.total Upload.held = v.uploads.total Upload.held - held) :
    Below C cfg initial { store := t, uploads } := by
  refine ⟨honce, ?_, ht.blobsOnce, ht.manifestsOnce, ?_, ?_⟩
  · have := h.reserved
    have := ht.reserved
    dsimp only
    omega
  · rcases ht.room with hle | hroom
    · exact aboveAdmission_mono hle h.room
    · exact hroom
  · have := ht.disk
    have := h.disk
    dsimp only
    omega

omit [DecidableEq σ] [DecidableEq ι] in
/-- **A section that runs an operation.** -/
theorem Below.run {α : Type} (h : Below C cfg initial v) {op : Op σ ι α} {held held' : Int}
    {returned : α → Dir ℕ (Upload σ)} {thrown : Dir ℕ (Upload σ)}
    (hop : Ends io op v.store (fun _ => Leaves C cfg v.store held)
      (fun _ => Leaves C cfg v.store held') fun _ => True)
    (hreturned : ∀ a, (returned a).Once ∧
      (returned a).total Upload.held = v.uploads.total Upload.held - held)
    (hthrown : thrown.Once ∧ thrown.total Upload.held = v.uploads.total Upload.held - held')
    (hrun : v.run op io returned thrown = some w) : Below C cfg initial w := by
  obtain ⟨hret, hthr, -⟩ := ends_iff.1 hop
  unfold Uploading.run at hrun
  split at hrun
  · rename_i a t heq
    exact Option.some.inj hrun ▸ h.leaves (hret a t heq) (hreturned a).1 (hreturned a).2
  · rename_i e t heq
    exact Option.some.inj hrun ▸ h.leaves (hthr e t heq) hthrown.1 hthrown.2
  · cases hrun

omit [DecidableEq σ] [DecidableEq ι] in
/-- What an upload holds is exchanged for what it holds then. -/
theorem goes_held (h : v.uploads.Once) (hu : v.uploads.read n = some u) (phase : Phase) :
    (v.goes n u phase).Once ∧ (v.goes n u phase).total Upload.held =
      v.uploads.total Upload.held - (u.held - { u with phase }.held) := by
  have htotal := Dir.total_unlink Upload.held h n
  rw [hu] at htotal
  simp only [Option.map_some, Option.getD_some] at htotal
  refine ⟨h.write _ _, ?_⟩
  rw [Uploading.goes, Dir.total_write]
  omega

omit [DecidableEq σ] [DecidableEq ι] in
theorem ends_held (h : v.uploads.Once) (hu : v.uploads.read n = some u) :
    (v.ends n).Once ∧ (v.ends n).total Upload.held = v.uploads.total Upload.held - u.held := by
  have htotal := Dir.total_unlink Upload.held h n
  rw [hu] at htotal
  simp only [Option.map_some, Option.getD_some] at htotal
  refine ⟨h.unlink _, ?_⟩
  rw [Uploading.ends]
  omega

omit [DecidableEq σ] [DecidableEq ι] in
/-- An operation that neither stores nor reserves. -/
theorem quiet_leaves {α : Type} (h : Below C cfg initial v) {op : Op σ ι α}
    (hop : Keeps (Tally C v.store.bytes v.store.reserved (v.store.diskBytes C)) op) :
    Ends io op v.store (fun _ => Leaves C cfg v.store 0) (fun _ => Leaves C cfg v.store 0)
      fun _ => True :=
  (hop io v.store h.tally).mono (fun _ _ ht => ht.leaves) (fun _ _ ht => ht.leaves)
    fun _ _ => trivial

omit [DecidableEq σ] [DecidableEq ι] in
/-- An upload that goes on and holds what it held. -/
theorem Below.goes (h : Below C cfg initial v) (hu : v.uploads.read n = some u) (phase : Phase)
    (hheld : { u with phase }.held = u.held) :
    Below C cfg initial { v with uploads := v.goes n u phase } := by
  obtain ⟨honce, htotal⟩ := goes_held h.once hu phase
  exact h.leaves h.tally.leaves honce (by omega)

/-- **The section of an upload.** -/
theorem below_nextOf (h : Below C cfg initial v) (hu : v.uploads.read n = some u)
    {a : UploadAct σ ι} (hnext : v.nextOf C cfg n u a = some w) : Below C cfg initial w := by
  have hends := ends_held h.once hu
  have hgoes := goes_held h.once hu
  cases hphase : u.phase with
  | checking intact =>
    have hheld : u.held = 0 := by rw [Upload.held, hphase]
    rw [hheld] at hends hgoes
    cases a <;> simp only [Uploading.nextOf, hphase, reduceCtorEq] at hnext
    case checked m io =>
      cases intact with
      | true => exact Option.some.inj hnext ▸ h.goes hu _ (by rw [hheld]; rfl)
      | false =>
        refine h.run (reserve_leaves h.tally _) (fun _ => ?_) hends hnext
        simpa [Upload.held] using hgoes (.streaming 0)
    case fail m =>
      exact Option.some.inj hnext ▸ h.leaves h.tally.leaves hends.1 hends.2
  | acknowledging =>
    have hheld : u.held = 0 := by rw [Upload.held, hphase]
    rw [hheld] at hends
    cases a <;> simp only [Uploading.nextOf, hphase, reduceCtorEq] at hnext
    case acknowledge m body io =>
      exact h.run (quiet_leaves h (tally_acknowledgeDuplicate _ _)) (fun _ => hends) hends hnext
    case fail m =>
      exact Option.some.inj hnext ▸ h.leaves h.tally.leaves hends.1 hends.2
  | streaming size =>
    have hheld : u.held = u.declaredSize := by rw [Upload.held, hphase]
    cases a <;> simp only [Uploading.nextOf, hphase, reduceCtorEq] at hnext
    case chunk m length =>
      refine Option.some.inj hnext ▸ h.goes hu _ ?_
      split_ifs <;> rw [hheld] <;> rfl
    case written m | fail m => exact Option.some.inj hnext ▸ h.goes hu _ (by rw [hheld]; rfl)
  | hashing size =>
    have hheld : u.held = u.declaredSize := by rw [Upload.held, hphase]
    rw [hheld] at hgoes
    cases a <;> simp only [Uploading.nextOf, hphase, reduceCtorEq] at hnext
    case hashed m onDisk io =>
      split_ifs at hnext
      · exact Option.some.inj hnext ▸ h.goes hu _ (by rw [hheld]; rfl)
      · refine h.run (quiet_leaves h (keeps_intactBlob C _ _)) (fun intact => ?_) ?_ hnext
        · simpa [Upload.held] using hgoes (.rechecking intact)
        · simpa [Upload.held] using hgoes .failing
    case fail m => exact Option.some.inj hnext ▸ h.goes hu _ (by rw [hheld]; rfl)
  | rechecking intact =>
    have hheld : u.held = u.declaredSize := by rw [Upload.held, hphase]
    rw [hheld] at hends
    cases a <;> simp only [Uploading.nextOf, hphase, reduceCtorEq] at hnext
    case land m io => exact h.run (landUpload_leaves h.tally _ _ _) (fun _ => hends) hends hnext
    case fail m => exact Option.some.inj hnext ▸ h.goes hu _ (by rw [hheld]; rfl)
  | failing =>
    have hheld : u.held = u.declaredSize := by rw [Upload.held, hphase]
    rw [hheld] at hends
    cases a <;> simp only [Uploading.nextOf, hphase, reduceCtorEq] at hnext
    case finish m io =>
      exact h.run (releaseUpload_leaves _ _ (h.tally.grown _)) (fun _ => hends) hends hnext
    case fail m => exact Option.some.inj hnext ▸ h.goes hu _ (by rw [hheld]; rfl)

/-- **Every section keeps what is below the threshold.** -/
theorem below_next (h : Below C cfg initial v) {a : UploadAct σ ι} (hok : WritesCounted C cfg v a)
    (hnext : v.next C cfg a = some w) : Below C cfg initial w := by
  have hsame : v.uploads.Once ∧
      v.uploads.total Upload.held = v.uploads.total Upload.held - 0 := ⟨h.once, by omega⟩
  have hof : ∀ m, ((v.uploads.read m).bind fun u => v.nextOf C cfg m u a) = some w →
      Below C cfg initial w := fun m hm => by
    obtain ⟨u, hu, hw⟩ := Option.bind_eq_some_iff.1 hm
    exact below_nextOf h hu hw
  cases a with
  | put m sha declaredSize io =>
    simp only [Uploading.next] at hnext
    split_ifs at hnext with hread
    · exact Option.some.inj hnext ▸ h
    · refine h.run (quiet_leaves h (keeps_intactBlob C _ _)) (fun intact => ?_) hsame hnext
      have hnone : v.uploads.read m = none := by simpa using hread
      refine ⟨h.once.write _ _, ?_⟩
      rw [Dir.total_write, Dir.unlink_of_read_none hnone]
      rfl
  | register job content io =>
    exact h.run ((registerManifest_grown h.tally hok).mono
      (fun _ _ ht => ht.leaves le_rfl ⟨rfl, rfl⟩ rfl (by omega))
      (fun _ _ ht => ht.leaves le_rfl ⟨rfl, rfl⟩ rfl (by omega)) fun _ ht => ht)
      (fun _ => hsame) hsame hnext
  | tick now =>
    obtain rfl := Option.some.inj hnext
    exact ⟨h.once, h.reserved, h.blobsOnce, h.manifestsOnce, h.room, h.disk⟩
  | _ => exact hof _ hnext

end Runs

/-- **In every run in which no manifest's write throws behind its rename**, what is on the disk and
what is reserved stay below the threshold, and when all uploads have ended the reservations are
what they were. -/
theorem stays_below (C : Contents σ) (cfg : Config) (start : ObjectStore σ ι)
    (hblobs : start.blobs.Once) (hmanifests : start.manifests.Once)
    (hbytes : start.bytes = start.diskBytes C)
    (hroom : cfg.aboveAdmission (start.diskBytes C + start.reserved) = false) (s : Uploading σ ι)
    (h : (uploading C cfg start).Reach (WritesCounted C cfg) s) :
    cfg.aboveAdmission (s.store.diskBytes C + s.store.reserved) = false ∧
      (s.uploads = .empty → s.store.reserved = start.reserved) := by
  have hbelow : Below C cfg start.reserved s := by
    refine h.invariant (P := Below C cfg start.reserved) ?_ fun v a w hv hok hw =>
      below_next hv hok hw
    rintro v rfl
    refine ⟨List.nodup_nil, (Int.add_zero _).symm, hblobs, hmanifests, ?_, hbytes.ge⟩
    rw [← hbytes] at hroom
    exact hroom
  refine ⟨aboveAdmission_mono (Int.add_le_add_right hbelow.disk _) hbelow.room, fun hnone => ?_⟩
  have hreserved := hbelow.reserved
  rw [hnone] at hreserved
  exact hreserved.trans (Int.add_zero _)

/-- Two uploads of one blob race, and the slower one finds it. -/
def raceOfTwo : List (UploadAct Nat Unit) :=
  [.put 1 0 1 allOk, .put 2 0 1 allOk, .checked 1 allOk, .checked 2 allOk, .chunk 1 1, .chunk 2 1,
    .written 1, .written 2, .hashed 1 0 allOk, .land 1 allOk, .hashed 2 0 allOk, .land 2 allOk]

/-- Room for two bytes. -/
def cappedConfig : Config := { smallConfig with capBytes := some 3 }

theorem stays_below_raceOfTwo : ∃ s : Uploading Nat Unit,
    (uploading smallContents cappedConfig {}).Reach (WritesCounted smallContents cappedConfig) s ∧
      s.uploads = .empty ∧ s.store.diskBytes smallContents = 1 ∧ s.store.reserved = 0 := by
  have hok : (uploading smallContents cappedConfig {}).Along
      (WritesCounted smallContents cappedConfig) { store := {} } raceOfTwo := by
    refine Machine.along_of_check (fun _ a =>
      match a with
      | .register _ _ _ => false
      | _ => true) (fun s a ha => ?_) raceOfTwo (by decide +kernel)
    cases a with
    | register job content io => exact Bool.noConfusion ha
    | _ => trivial
  obtain ⟨s, hs, hp⟩ := (uploading smallContents cappedConfig {}).exists_reach_of_exec
    { store := {} } raceOfTwo
    (fun s => decide (s.uploads = .empty ∧ s.store.diskBytes smallContents = 1)) rfl hok
    (by decide +kernel)
  obtain ⟨hended, hdisk⟩ := of_decide_eq_true hp
  exact ⟨s, hs, hended, hdisk, (stays_below smallContents cappedConfig {} List.nodup_nil
    List.nodup_nil rfl rfl s hs).2 hended⟩

/-- A blob is stored; a manifest of it is registered whose write throws at the sync of the
directory; then another blob is stored. -/
def uncountedManifest : List (UploadAct Nat Unit) :=
  [.put 1 0 1 allOk, .checked 1 allOk, .chunk 1 1, .written 1, .hashed 1 0 allOk, .land 1 allOk,
    .register () 10 (failsAt (.writeManifest ()) .failsLate),
    .put 2 2 1 allOk, .checked 2 allOk, .chunk 2 1, .written 2, .hashed 2 2 allOk, .land 2 allOk]

/-- **The disk is not always below the threshold.** -/
theorem not_forall_below :
    ¬ ∀ (C : Contents Nat) (cfg : Config) (start : ObjectStore Nat Unit) (s : Uploading Nat Unit),
      Accounted C start → cfg.aboveAdmission (start.diskBytes C + start.reserved) = false →
        (uploading C cfg start).Reach (fun _ _ => True) s →
          cfg.aboveAdmission (s.store.diskBytes C + s.store.reserved) = false := by
  intro hall
  have hok : (uploading smallContents cappedConfig {}).Along (fun _ _ => True)
      { store := {} } uncountedManifest :=
    Machine.along_of_forall (fun _ _ => trivial) uncountedManifest _
  obtain ⟨s, hs, hp⟩ := (uploading smallContents cappedConfig {}).exists_reach_of_exec
    { store := {} } uncountedManifest
    (fun s => cappedConfig.aboveAdmission (s.store.diskBytes smallContents + s.store.reserved))
    rfl hok (by decide +kernel)
  have hbelow := hall smallContents cappedConfig {} s accounted_empty rfl hs
  rw [hp] at hbelow
  cases hbelow

end Store
end LaneBroker
