/-
# The hashes of the blob records

A blob is stored under the hash of its bytes, and its record in the journal names the hash
once more.  An upload records the address, and `reconcile` leaves a blob alone whose bytes do
not hash to its address; `rejournal` records what is on disk.  So the records agree with their
addresses (`Addressed`) as long as nothing that is journaled again is damaged:
`records_addressed` says so of all runs of a store whose blob files anything may happen to,
with the comparison that repairs (`compareStores` of `store/compare.js`) among its moves, and
`repair_records_damage` that a damaged blob which is journaled again ends it.
-/

import LaneBroker.Store.Protection

namespace LaneBroker
namespace Store

open LaneBroker.Basis Fallible

variable {σ ι : Type}

/-! ### Comparing with a replica -/

/-- **An entry of a listing**: the hash only where the listing is deep. -/
structure Listed (σ ι : Type) where
  path : Path σ ι
  size : Nat
  sha256 : Option σ
  deriving DecidableEq, Repr

/-- **What `compareStores` finds.** -/
structure Diff (σ ι : Type) where
  missingAtReplica : List (Path σ ι)
  mismatched : List (Path σ ι)
  extraAtReplica : List (Path σ ι)
  notInJournal : List (Path σ ι)
  lostAtPrimary : List (Path σ ι)
  deriving DecidableEq, Repr

/-- `diff.ok`. -/
def Diff.ok (d : Diff σ ι) : Bool :=
  d.missingAtReplica.isEmpty && d.mismatched.isEmpty && d.notInJournal.isEmpty &&
    d.lostAtPrimary.isEmpty

variable [DecidableEq σ] [DecidableEq ι]

/-- The paths a repair journals again, each once. -/
def Diff.repairs (d : Diff σ ι) : List (Path σ ι) :=
  (d.notInJournal ++ d.missingAtReplica ++ d.mismatched).foldl addTo []

/-- The entry of a path in a `Map` made of a listing. -/
def listedAt (listing : List (Listed σ ι)) (path : Path σ ι) : Option (Listed σ ι) :=
  listing.reverse.find? fun r => r.path = path

/-- The loops of `compareStores`. -/
def diffOf (deep : Bool) (here there : List (Listed σ ι)) (journal : List (Fields σ ι)) :
    Diff σ ι where
  missingAtReplica :=
    (here.filter fun o => (listedAt there o.path).isNone).map Listed.path
  mismatched :=
    (here.filter fun o => (listedAt there o.path).any fun r =>
      r.size ≠ o.size || (deep && r.sha256 ≠ o.sha256)).map Listed.path
  extraAtReplica :=
    ((there.map Listed.path).foldl addTo []).filter fun p => p ∉ here.map Listed.path
  notInJournal :=
    (here.filter fun o => objectState journal o.path ≠ some .put ∧
      objectState journal o.path ≠ some .intent).map Listed.path
  lostAtPrimary :=
    (journaledPaths journal).filter fun p =>
      objectState journal p = some .put ∧ p ∉ here.map Listed.path

variable (C : Contents σ) (cfg : Config) (before : Path σ ι → Path σ ι → Bool)

/-- `walkFiles` of the blobs and of the manifests, with their sizes. -/
def ObjectStore.files (s : ObjectStore σ ι) : List (Listed σ ι) :=
  s.blobs.entries.map (fun e => ⟨.blob e.1, C.sizeOf e.2.content, none⟩) ++
    s.manifests.entries.map fun e => ⟨.manifest e.1, C.sizeOf e.2, none⟩

/-- The hashes of a deep listing. -/
def hashListed : List (Listed σ ι) → Op σ ι (List (Listed σ ι))
  | [] => return []
  | o :: os => do
    match ← contentOnDisk o.path with
    | none => Fallible.raise .io
    | some content =>
      let more ← hashListed os
      return { o with sha256 := some content } :: more

/-- **`listObjects`**, in the order of the paths' texts. -/
def listObjects (deep : Bool) : Op σ ι (List (Listed σ ι)) := do
  let files ← Fallible.ask .listBlobs .io fun s => s.files C
  let listed ← if deep then hashListed files else pure files
  return listed.mergeSort fun a b => before a.path b.path

/-- **`compareStores`**, with the listing of the replica, which may not come. -/
def compareStores (deep : Bool) (remote : Option (List (Listed σ ι))) : Op σ ι (Diff σ ι) := do
  let here ← listObjects C before deep
  match remote with
  | none => Fallible.raise .io
  | some there =>
    let s ← Fallible.get
    return diffOf deep here there s.journal

/-- **`/admin/compare`**, which may repair. -/
def adminCompare (deep repair : Bool) (remote : Option (List (Listed σ ι))) :
    Fallible (Nat × Site σ ι) (ObjectStore σ ι) (StoreError σ) (Diff σ ι) := do
  let diff ← (compareStores C before deep remote).under fun c => (0, c)
  if !diff.ok && repair then rejournal C diff.repairs
  return diff

/-! ### A store whose blobs are damaged -/

/-- **The moves**: those of a store, a comparison, and damage. -/
inductive DamageMove (σ ι : Type)
  | store (m : StoreMove σ ι)
  | compare (deep repair : Bool) (remote : Option (List (Listed σ ι)))
    (io : Nat × Site σ ι → Answer)
  /-- The files of the blobs become anything, whether a process serves the store or not. -/
  | damage (blobs : Dir σ (BlobFile σ))

/-- **One move.** -/
def StoreWorld.nextDamaged (w : StoreWorld σ ι) : DamageMove σ ι → Option (StoreWorld σ ι)
  | .store m => w.next C cfg m
  | .compare deep repair remote io => w.runs (adminCompare C before deep repair remote) io []
  | .damage blobs => some (w.withStore { w.store with blobs } [] w.up)

/-- **The store machine with damage.** -/
def damagedMachine : Machine (StoreWorld σ ι) (DamageMove σ ι) where
  start w := w = {}
  next := StoreWorld.nextDamaged C cfg before

/-! ### Records and addresses -/

omit [DecidableEq σ] [DecidableEq ι] in
/-- **A record agrees with its address.** -/
def Fields.Addressed : Fields σ ι → Prop
  | .put (.blob sha) sha256 _ => sha256 = sha
  | _ => True

instance (f : Fields σ ι) : Decidable f.Addressed := by
  unfold Fields.Addressed
  split <;> infer_instance

/-- **The invariant**: every record agrees with its address, and so does one that is astray. -/
def Addressed (s : ObjectStore σ ι) : Prop := ∀ f ∈ s.journal ++ s.stray.toList, f.Addressed

/-- What is on disk at a path is what its address says. -/
def ObjectStore.SoundAt (s : ObjectStore σ ι) : Path σ ι → Prop
  | .blob sha => ∀ f, s.blobs.read sha = some f → f.content = sha
  | .manifest _ => True

section Operations

variable {s : ObjectStore σ ι}

omit [DecidableEq σ] [DecidableEq ι] in
theorem Addressed.concat {t : ObjectStore σ ι} {f : Fields σ ι} (h : Addressed s)
    (hf : f.Addressed)
    (ht : ∀ g ∈ t.journal ++ t.stray.toList, g ∈ s.journal ++ s.stray.toList ∨ g = f) :
    Addressed t := by
  intro g hg
  rcases ht g hg with hg | rfl
  · exact h g hg
  · exact hf

omit [DecidableEq σ] [DecidableEq ι] in
/-- **An append of a record that agrees with its address.** -/
theorem addressed_append {f : Fields σ ι} (hf : f.Addressed) : Keeps Addressed (append f) := by
  intro io s hs
  unfold append Ends
  dsimp only
  split_ifs
  · exact hs
  · cases io (.append f) with
    | ok | failsLate | dies => exact hs.concat hf fun g hg => by grind
    | fails => exact hs

theorem addressed_flush : Keeps Addressed (flushPendingDeletes : Op σ ι Unit) :=
  keeps_get.bind fun _ => keeps_forM _ fun _ => Keeps.bind (addressed_append trivial) fun _ =>
    keeps_modify fun _ h => h

theorem addressed_cancelIntent (path : Path σ ι) : Keeps Addressed (cancelIntent path) := by
  refine keeps_get.bind fun s => ?_
  split_ifs
  · exact Keeps.bind (addressed_append trivial) fun _ => keeps_modify fun _ h => h
  · exact keeps_pure _

theorem addressed_journalBlob (sha : σ) : Keeps Addressed (journalBlob C sha : Op σ ι Unit) :=
  keeps_ask.bind fun _ => Keeps.bind (addressed_append rfl) fun _ => keeps_modify fun _ h => h

theorem addressed_journalIfNeeded (sha : σ) :
    Keeps Addressed (journalIfNeeded C sha : Op σ ι Unit) := by
  refine keeps_get.bind fun s => ?_
  split_ifs
  · exact addressed_journalBlob C sha
  · exact keeps_pure _

omit [DecidableEq ι] in
theorem addressed_stamp (sha : σ) : Keeps Addressed (stamp sha : Op σ ι Unit) :=
  keeps_call fun s h => by
    split
    · exact h
    · exact h

theorem addressed_acknowledgeDuplicate (sha body : σ) :
    Keeps Addressed (acknowledgeDuplicate C sha body : Op σ ι Bool) := by
  refine Keeps.bind (keeps_call fun _ h => h) fun _ => ?_
  split_ifs
  · exact keeps_raise _
  · refine keeps_ask.bind fun there => ?_
    split_ifs
    · exact keeps_raise _
    · exact (addressed_stamp sha).bind fun _ => (addressed_journalIfNeeded C sha).bind fun _ =>
        (addressed_cancelIntent _).bind fun _ => keeps_pure _

theorem addressed_commitBlob (sha : σ) : Keeps Addressed (commitBlob C sha : Op σ ι Unit) :=
  (addressed_stamp sha).bind fun _ => Keeps.bind (keeps_call fun _ h => h) fun _ =>
    (addressed_journalBlob C sha).bind fun _ => keeps_modify fun _ h => h

omit [DecidableEq ι] in
theorem addressed_undoBlob (sha : σ) : Keeps Addressed (undoBlob C sha : Op σ ι Unit) :=
  Keeps.handle (Keeps.bind (keeps_call fun _ h => h) fun _ => keeps_modify fun _ h => h)
    fun _ => keeps_modify fun _ h => h

theorem addressed_storeBlob (sha body : σ) (declaredSize : Nat) :
    Keeps Addressed (storeBlob C cfg sha body declaredSize : Op σ ι Bool) := by
  refine Keeps.bind (keeps_call fun _ h => h) fun _ => ?_
  dsimp only
  split_ifs
  · exact keeps_raise _
  · exact keeps_raise _
  refine (keeps_intactBlob C sha _).bind fun intact => ?_
  split_ifs
  · exact (addressed_stamp sha).bind fun _ => (addressed_journalIfNeeded C sha).bind fun _ =>
      keeps_pure _
  refine keeps_ask.bind fun replaced => keeps_get.bind fun s => ?_
  split_ifs
  · exact keeps_raise _
  refine addressed_flush.bind fun _ => Keeps.bind ?_ fun _ => Keeps.bind ?_ fun _ => keeps_pure _
  · exact Keeps.bind (keeps_call fun _ h => h) fun _ => keeps_modify fun _ h => h
  · exact (addressed_commitBlob C sha).handle fun e => (addressed_undoBlob C sha).bind fun _ =>
      keeps_raise e

/-- **An upload records the address.** -/
theorem addressed_putBlob (sha body : σ) (declaredSize : Nat) :
    Keeps Addressed (putBlob C cfg sha body declaredSize : Op σ ι Bool) := by
  unfold putBlob
  split_ifs
  · exact keeps_raise _
  refine (keeps_intactBlob C sha _).bind fun intact => ?_
  split_ifs
  · exact addressed_acknowledgeDuplicate C sha body
  refine Keeps.bind ?_ fun _ => (addressed_storeBlob C cfg sha body declaredSize).ensuring ?_
  · refine keeps_get.bind fun s => ?_
    split_ifs
    · exact keeps_raise _
    · exact keeps_modify fun _ h => h
  · exact Keeps.bind (keeps_modify fun _ h => h) fun _ => keeps_call fun _ h => h

omit [DecidableEq σ] in
theorem addressed_readManifest (job : ι) :
    Keeps Addressed (readManifest C job : Op σ ι (Option (Doc σ))) := by
  refine keeps_ask.bind fun content => ?_
  split
  · exact keeps_pure _
  · split
    · exact keeps_raise _
    · exact keeps_pure _

theorem addressed_missingFiles (files : List (σ × Nat)) :
    Keeps Addressed (missingFiles C files : Op σ ι (List σ)) := by
  induction files with
  | nil => exact keeps_pure _
  | cons f files ih => exact keeps_ask.bind fun _ => ih.bind fun _ => keeps_pure _

omit [DecidableEq σ] in
theorem addressed_undoManifest (job : ι) (size : Nat) :
    Keeps Addressed (undoManifest job size : Op σ ι Unit) :=
  Keeps.bind (keeps_call fun _ h => h) fun _ => Keeps.bind (keeps_call fun _ h => h) fun _ =>
    keeps_modify fun _ h => h

/-- **So does a registration**, of the blobs it journals. -/
theorem addressed_registerManifest (job : ι) (content : σ) :
    Keeps Addressed (registerManifest C cfg job content : Op σ ι Bool) := by
  unfold registerManifest
  extract_lets size
  split_ifs
  · exact keeps_raise _
  split
  · exact keeps_raise _
  refine (addressed_readManifest C job).bind fun existing => ?_
  split
  · split_ifs
    · exact keeps_raise _
    · exact keeps_pure _
  refine (addressed_missingFiles C _).bind fun missing => ?_
  split_ifs
  · exact keeps_raise _
  refine keeps_get.bind fun s => ?_
  split_ifs
  · exact keeps_raise _
  refine addressed_flush.bind fun _ =>
    (keeps_forM _ fun sha => addressed_journalIfNeeded C sha).bind fun _ =>
    (keeps_forM _ fun sha => addressed_cancelIntent _).bind fun _ =>
    Keeps.bind (keeps_write fun _ h => h) fun _ => Keeps.bind (keeps_modify fun _ h => h) fun _ =>
    Keeps.bind ?_ fun _ => Keeps.bind (keeps_modify fun _ h => h) fun _ => keeps_pure _
  refine Keeps.handle (keeps_get.bind fun s => ?_) fun e =>
    (addressed_undoManifest job _).bind fun _ => keeps_raise e
  exact Keeps.bind (keeps_write fun _ h => h) fun _ => addressed_append trivial

theorem addressed_setJobState (job : ι) (field : StateField) :
    Keeps Addressed (setJobState C job field : Op σ ι Bool) := by
  refine (addressed_readManifest C job).bind fun existing => ?_
  split
  · exact keeps_raise _
  refine addressed_flush.bind fun _ => keeps_ask.bind fun m => ?_
  dsimp only
  split_ifs
  · exact keeps_pure _
  refine Keeps.bind (keeps_write fun _ h => h) fun _ => Keeps.bind ?_ fun _ => keeps_pure _
  refine Keeps.handle (addressed_append ?_) fun e =>
    Keeps.bind (keeps_write fun _ h => h) fun _ => keeps_raise e
  cases field <;> trivial

theorem addressed_unlinkObject (path : Path σ ι) :
    Keeps Addressed (unlinkObject path : Op σ ι Unit) :=
  keeps_call fun s h => by
    cases path with
    | blob sha => exact h
    | manifest job => exact h

omit [DecidableEq σ] in
theorem addressed_dropJob (path : Path σ ι) : Keeps Addressed (dropJob path : Op σ ι Unit) := by
  cases path with
  | blob sha => exact keeps_pure _
  | manifest job =>
    exact Keeps.bind (keeps_call fun _ h => h) fun _ => Keeps.bind (keeps_call fun _ h => h) fun _ =>
      keeps_modify fun _ h => h

theorem addressed_removeObject (path : Path σ ι) (size : Nat) :
    Keeps Addressed (removeObject path size : Op σ ι Unit) :=
  Keeps.bind (addressed_append trivial) fun _ => Keeps.bind (keeps_modify fun _ h => h) fun _ =>
    (addressed_unlinkObject path).bind fun _ => Keeps.bind (keeps_call fun _ h => h) fun _ =>
    Keeps.bind (keeps_modify fun _ h => h) fun _ => (addressed_dropJob path).bind fun _ =>
    Keeps.bind (Keeps.bind (addressed_append trivial) fun _ => keeps_modify fun _ h => h) fun _ =>
    keeps_modify fun _ h => h

theorem addressed_deleteObject (path : Path σ ι) :
    Keeps Addressed (deleteObject C path : Op σ ι Bool) := by
  refine Keeps.bind ?_ fun _ => keeps_get.bind fun s => ?_
  · cases path with
    | manifest job => exact keeps_pure _
    | blob sha =>
      refine Keeps.bind (fun io => lasts_isProtectedBlob (fun _ h => h) (fun _ _ h => h) sha)
        fun protectedBlob => ?_
      split_ifs
      · exact keeps_raise _
      · exact keeps_pure _
  · split_ifs
    · exact keeps_pure _
    refine addressed_flush.bind fun _ => keeps_ask.bind fun size => ?_
    split
    · exact keeps_pure _
    · exact (addressed_removeObject path _).bind fun _ => keeps_pure _

/-- **An orphan is recorded under its address or not at all.** -/
theorem addressed_journalOrphan (path : Path σ ι) :
    Keeps Addressed (journalOrphan C path : Op σ ι Unit) := by
  refine keeps_ask.bind fun content => ?_
  split
  · exact keeps_raise _
  · split_ifs with hcontent
    · exact keeps_pure _
    · exact addressed_append (not_not.1 hcontent)
  · exact addressed_append trivial

theorem addressed_reconcile : Keeps Addressed (reconcile C : Op σ ι Unit) := by
  refine keeps_ask.bind fun s => (keeps_forM _ fun path => addressed_journalOrphan C path).bind
    fun _ => keeps_forM _ fun path => ?_
  unfold settleMissing
  split
  · exact addressed_append trivial
  · exact keeps_modify fun _ h => h
  · exact keeps_pure _

/-! ### Journaling again -/

/-- Records agree with their addresses, and so does what is on disk at these paths. -/
def SoundFor (paths : List (Path σ ι)) (s : ObjectStore σ ι) : Prop :=
  Addressed s ∧ ∀ path ∈ paths, s.SoundAt path

omit [DecidableEq ι] in
theorem soundAt_ofFiles (paths : List (Path σ ι)) :
    OfFiles fun s : ObjectStore σ ι => ∀ path ∈ paths, s.SoundAt path := by
  intro s t h _ hs path hmem
  have hpath := hs path hmem
  cases path with
  | manifest job => trivial
  | blob sha => exact fun f hf => hpath f (h.blobs ▸ hf)

variable {paths : List (Path σ ι)}

theorem rejournalPath_sound {path : Path σ ι} (hmem : path ∈ paths) :
    Keeps (SoundFor paths) (rejournalPath C path) := by
  have hfiles := soundAt_ofFiles paths
  refine Keeps.bind (keeps_modify fun s hs => ⟨hs.1, hfiles s _ ⟨rfl, rfl, rfl⟩ rfl hs.2⟩)
    fun _ => Keeps.ensuring ?_
      (keeps_modify fun s hs => ⟨hs.1, hfiles s _ ⟨rfl, rfl, rfl⟩ rfl hs.2⟩)
  intro io s hs
  rw [contentOnDisk_eq]
  refine ends_ask_bind ?_ hs hs
  cases hcontent : s.contentAt path with
  | none => exact hs
  | some content =>
    have hf : (Fields.put path content (C.sizeOf content)).Addressed := by
      cases path with
      | manifest job => trivial
      | blob sha =>
        obtain ⟨f, hread, rfl⟩ := Option.map_eq_some_iff.1 hcontent
        exact hs.2 _ hmem f hread
    exact (addressed_append hf io s hs.1).and (keeps_append hfiles _ io s hs.2)

/-- **Where nothing that is journaled again is damaged, the records agree with their addresses.** -/
theorem rejournal_sound : Keeps (SoundFor paths) (rejournal C paths) := by
  have hflush : Keeps (SoundFor paths) (flushPendingDeletes : Op σ ι Unit) := fun io s hs =>
    (addressed_flush io s hs.1).and (keeps_flushPendingDeletes (soundAt_ofFiles paths) io s hs.2)
  have hloop : ∀ rest, (∀ p ∈ rest, p ∈ paths) → ∀ k,
      Keeps (SoundFor paths) (rejournalFrom C k rest) := by
    intro rest
    induction rest with
    | nil => exact fun _ _ => keeps_pure _
    | cons path rest ih =>
      intro hsub k
      exact (rejournalPath_sound C (hsub path List.mem_cons_self)).under.bind fun _ =>
        ih (fun p hp => hsub p (List.mem_cons_of_mem _ hp)) (k + 1)
  exact hflush.under.bind fun _ => hloop paths (fun _ h => h) 1

/-! ### Comparing -/

/-- What `listObjects` lists. -/
def ObjectStore.listing (s : ObjectStore σ ι) (deep : Bool) : List (Listed σ ι) :=
  (if deep then (s.files C).map fun o => { o with sha256 := s.contentAt o.path }
    else s.files C).mergeSort fun a b => before a.path b.path

theorem hashListed_ends (s : ObjectStore σ ι) (io : Io σ ι) (os : List (Listed σ ι)) :
    Ends io (hashListed os) s
      (fun r t => t = s ∧ r = os.map fun o => { o with sha256 := s.contentAt o.path })
      (fun _ t => t = s) (fun t => t = s) := by
  induction os with
  | nil => exact ⟨rfl, rfl⟩
  | cons o os ih =>
    unfold hashListed
    rw [contentOnDisk_eq]
    refine ends_ask_bind ?_ rfl rfl
    cases hcontent : s.contentAt o.path with
    | none => exact rfl
    | some content =>
      refine ih.bind fun more t ht => ?_
      obtain ⟨rfl, rfl⟩ := ht
      exact ⟨rfl, by rw [List.map_cons, hcontent]⟩

/-- **`compareStores` changes nothing**, and finds the differences to what is there. -/
theorem compareStores_ends (s : ObjectStore σ ι) (io : Io σ ι) (deep : Bool)
    (remote : Option (List (Listed σ ι))) :
    Ends io (compareStores C before deep remote) s
      (fun r t => t = s ∧ ∃ there, remote = some there ∧
        r = diffOf deep (s.listing C before deep) there s.journal)
      (fun _ t => t = s) (fun t => t = s) := by
  have hlist : Ends io (listObjects C before deep) s
      (fun r t => t = s ∧ r = s.listing C before deep) (fun _ t => t = s) (fun t => t = s) := by
    refine ends_ask_bind ?_ rfl rfl
    cases deep with
    | true =>
      refine (hashListed_ends s io _).bind fun r t ht => ?_
      obtain ⟨rfl, rfl⟩ := ht
      exact ⟨rfl, rfl⟩
    | false => exact ⟨rfl, rfl⟩
  refine hlist.bind fun here t ht => ?_
  obtain ⟨rfl, rfl⟩ := ht
  cases remote with
  | none => exact rfl
  | some there => exact ⟨rfl, there, rfl, rfl⟩

end Operations

/-! ### Runs -/

/-- **Nothing is journaled again that is damaged**: the paths of a `rejournal`, and those that a
comparison repairs. -/
def RejournalsSound (w : StoreWorld σ ι) : DamageMove σ ι → Prop
  | .store (.rejournal paths _) => ∀ path ∈ paths, w.store.SoundAt path
  | .compare deep true (some there) _ =>
    ∀ path ∈ (diffOf deep (w.store.listing C before deep) there w.store.journal).repairs,
      w.store.SoundAt path
  | _ => True

variable {C} {w w' : StoreWorld σ ι}

theorem addressed_adminCompare {s : ObjectStore σ ι} (hs : Addressed s) (deep repair : Bool)
    (remote : Option (List (Listed σ ι))) (io : Nat × Site σ ι → Answer)
    (hsound : repair = true → ∀ there, remote = some there →
      ∀ path ∈ (diffOf deep (s.listing C before deep) there s.journal).repairs, s.SoundAt path) :
    Ends io (adminCompare C before deep repair remote) s (fun _ => Addressed)
      (fun _ => Addressed) Addressed := by
  refine Ends.bind (R := fun r t => t = s ∧ ∃ there, remote = some there ∧
    r = diffOf deep (s.listing C before deep) there s.journal) ?_ fun diff t ht => ?_
  · exact (compareStores_ends C before s (fun c => io (0, c)) deep remote).mono (fun _ _ h => h)
      (fun _ _ h => h ▸ hs) fun _ h => h ▸ hs
  · obtain ⟨rfl, there, hremote, rfl⟩ := ht
    extract_lets answer
    split_ifs with hrepair
    · have hrepair : repair = true := (Bool.and_eq_true_iff.1 hrepair).2
      have hends := rejournal_sound C io t ⟨hs, hsound hrepair there hremote⟩
      exact (hends.mono (fun _ _ h => h.1) (fun _ _ h => h.1) fun _ h => h.1).bind
        fun _ _ hu => hu
    · exact hs

theorem addressed_opens (h : Addressed w.store) {adopt : Bool} {io : Io σ ι}
    (hnext : w.opens C adopt io = some w') : Addressed w'.store := by
  refine opens_keeps (addressed_reconcile C io _ fun f hf => h f ?_) hnext
  cases adopt with
  | true => simpa [ObjectStore.restarted] using hf
  | false =>
    have hf : f ∈ w.store.journal := by simpa [ObjectStore.restarted] using hf
    exact List.mem_append_left _ hf

/-- **The step lemma of the store**: all its moves but `rejournal` keep the records right. -/
theorem addressed_next (h : Addressed w.store) {a : StoreMove σ ι}
    (hok : RejournalsSound C before w (.store a)) (hnext : w.next C cfg a = some w') :
    Addressed w'.store := by
  cases a with
  | opens adopt io => exact addressed_opens h hnext
  | putBlob sha body declaredSize io =>
    exact runs_keeps (addressed_putBlob C cfg sha body declaredSize io _ h) hnext
  | registerManifest job content io =>
    exact runs_keeps (addressed_registerManifest C cfg job content io _ h) hnext
  | setJobState job field io => exact runs_keeps (addressed_setJobState C job field io _ h) hnext
  | deleteObject path io => exact runs_keeps (addressed_deleteObject C path io _ h) hnext
  | sweep times io =>
    exact runs_keeps (lasts_sweep (fun _ h => h)
      (fun _ job => lasts_jobBlobs (fun _ h => h) (fun _ _ h => h) job)
      (fun _ path => addressed_deleteObject C path _) cfg times _ _ h) hnext
  | rejournal paths io =>
    exact runs_keeps ((rejournal_sound C io _ ⟨h, hok⟩).mono (fun _ _ h => h.1)
      (fun _ _ h => h.1) fun _ h => h.1) hnext
  | maintain io => exact runs_keeps (addressed_flush io _ h) hnext
  | tick now | powerLoss blobs manifests metas =>
    obtain rfl := Option.some.inj hnext
    exact h
  | dies =>
    unfold StoreWorld.next at hnext
    dsimp only at hnext
    split_ifs at hnext
    obtain rfl := Option.some.inj hnext
    exact h

/-- **The step lemma.** -/
theorem addressed_nextDamaged (h : Addressed w.store) {a : DamageMove σ ι}
    (hok : RejournalsSound C before w a) (hnext : w.nextDamaged C cfg before a = some w') :
    Addressed w'.store := by
  cases a with
  | store m => exact addressed_next cfg before h hok hnext
  | compare deep repair remote io =>
    refine runs_keeps (addressed_adminCompare before h deep repair remote io ?_) hnext
    rintro rfl there rfl
    exact hok
  | damage blobs =>
    obtain rfl := Option.some.inj hnext
    exact h

/-- **The blob records agree with their addresses**, whatever happens to the files of the blobs,
in every run in which no damaged blob is journaled again. -/
theorem records_addressed (h : (damagedMachine C cfg before).Reach (RejournalsSound C before) w)
    {sha sha256 : σ} {size : Nat} (hmem : Fields.put (.blob sha) sha256 size ∈ w.store.journal) :
    sha256 = sha := by
  have haddressed : Addressed w.store := by
    refine h.invariant (P := fun w => Addressed w.store) (fun w hw => ?_)
      fun w a w' hs hok hnext => addressed_nextDamaged cfg before hs hok hnext
    obtain rfl := hw
    exact fun f hf => by cases hf
  exact haddressed _ (List.mem_append_left _ hmem)

/-- A replica that lists the blob 0 as it should be. -/
def replicaOfZero : List (Listed Nat Unit) := [⟨.blob 0, 1, some 0⟩]

/-- A blob is uploaded, compared with a replica that does not have it, and journaled again. -/
def comparesAndRepairs : List (DamageMove Nat Unit) :=
  [.store (.opens true allOk), .store (.putBlob 0 0 1 allOk), .compare true true (some []) allOk]

/-- Both records of the blob name its address. -/
theorem records_addressed_repaired : ∃ w : StoreWorld Nat Unit,
    (damagedMachine smallContents smallConfig fun _ _ => true).Reach
      (RejournalsSound smallContents fun _ _ => true) w ∧
      w.store.journal = [.put (.blob 0) 0 1, .put (.blob 0) 0 1] ∧
        ∀ sha256 size, Fields.put (.blob 0) sha256 size ∈ w.store.journal → sha256 = 0 := by
  have hok : (damagedMachine smallContents smallConfig fun _ _ => true).Along
      (RejournalsSound smallContents fun _ _ => true) {} comparesAndRepairs := by
    refine Machine.along_of_check (fun w a =>
      match a with
      | .store (.rejournal _ _) => false
      | _ => w.store.blobs.entries.all fun e => e.2.content = e.1) (fun w a h => ?_) _
        (by decide +kernel)
    have hsound : (w.store.blobs.entries.all fun e => e.2.content = e.1) = true →
        ∀ path, w.store.SoundAt path := by
      intro hall path
      cases path with
      | manifest job => trivial
      | blob sha => exact fun f hf => by simpa using List.all_eq_true.1 hall _ (Dir.mem_of_read hf)
    cases a with
    | store m =>
      cases m with
      | rejournal paths io => cases h
      | _ => trivial
    | compare deep repair remote io =>
      unfold RejournalsSound
      split
      · exact fun path _ => hsound h path
      · exact fun path _ => hsound h path
      · trivial
    | damage blobs => trivial
  obtain ⟨w, hw, hp⟩ := Machine.exists_reach_of_exec
    (damagedMachine smallContents smallConfig fun _ _ => true) {} comparesAndRepairs
    (fun w => decide (w.store.journal = [.put (.blob 0) 0 1, .put (.blob 0) 0 1]))
    rfl hok (by decide +kernel)
  exact ⟨w, hw, of_decide_eq_true hp, fun _ _ hmem => records_addressed smallConfig _ hw hmem⟩

/-- A blob is uploaded and damaged, a deep comparison finds it different from the replica's, and
repairs. -/
def repairsDamage : List (DamageMove Nat Unit) :=
  [.store (.opens true allOk), .store (.putBlob 0 0 1 allOk), .damage ⟨[(0, ⟨1, 0⟩)]⟩,
    .compare true true (some replicaOfZero) allOk]

/-- **The repair records the blob 0 under the hash 1.** -/
theorem repair_records_damage : ∃ w : StoreWorld Nat Unit,
    (damagedMachine smallContents smallConfig fun _ _ => true).Reach (fun _ _ => True) w ∧
      Fields.put (.blob 0) 1 1 ∈ w.store.journal := by
  obtain ⟨w, hw, hp⟩ := Machine.exists_reach_of_exec
    (damagedMachine smallContents smallConfig fun _ _ => true) {} repairsDamage
    (fun w => decide (Fields.put (.blob 0) 1 1 ∈ w.store.journal))
    rfl (Machine.along_of_forall (fun _ _ => trivial) _ _) (by decide +kernel)
  exact ⟨w, hw, of_decide_eq_true hp⟩

end Store
end LaneBroker
