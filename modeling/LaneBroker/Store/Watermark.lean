/-
# What the watermark stands for

A record at or below the watermark is explained: the replica confirmed it, or a later record
deletes its path, or it is about a job that was found terminal.  `Explained` depends only on
the records of the journal and on the answers the replicator had, which both only grow
(`Past.Le`), so a watermark that was right once stays right: after a crash, under a second
process, and when a power loss brings an old one back.  `Sound` is the invariant, and
`watermark_explained` what it comes to.
-/

import LaneBroker.Store.Replication

namespace LaneBroker
namespace Store

open LaneBroker.Basis

variable {σ ι : Type}

/-! ### What has been, and what it explains -/

/-- **What has been**: the records kept, and how the calls for the shipped ones were answered. -/
structure Past (σ ι : Type) where
  records : List (Rec (Fields σ ι))
  ships : List (Rec (Fields σ ι) × List (ShipEvent σ ι))

/-- What has been only grows. -/
structure Past.Le (a b : Past σ ι) : Prop where
  records : a.records <+: b.records
  ships : ∀ s ∈ a.ships, s ∈ b.ships

/-- What has been in a world. -/
def ReplicationWorld.past (w : ReplicationWorld σ ι) : Past σ ι where
  records := keptRecords w.journal.history
  ships := w.ships

/-- A record behind this one deletes the path. -/
def DeletedBehind (b : Past σ ι) (r : Rec (Fields σ ι)) (path : Path σ ι) : Prop :=
  ∃ d ∈ b.records, r.seq < d.seq ∧ d.fields = .delete path

/-- **A record below the watermark is explained.**  An object was confirmed by the replica, which
reported the hash and the size of the record after the object was shipped, or it is deleted by a
later record.  A pin or a terminal mark was applied and read back, or the job was found terminal
on the primary, or its manifest is deleted by a later record. -/
def Explained (b : Past σ ι) (r : Rec (Fields σ ι)) : Prop :=
  match r.fields with
  | .put path _ _ =>
    (∃ events, (r, events) ∈ b.ships ∧ Confirmed events r.fields) ∨ DeletedBehind b r path
  | .terminal job _ | .pin job _ =>
    (∃ events, (r, events) ∈ b.ships ∧
      (Confirmed events r.fields ∨ FoundTerminal events job)) ∨
        DeletedBehind b r (.manifest job)
  | .deleteIntent _ | .delete _ | .deleteCancel _ => True
  | .other => False

variable {b b' : Past σ ι} {r : Rec (Fields σ ι)}

theorem Past.Le.refl (b : Past σ ι) : b.Le b := ⟨List.prefix_rfl, fun _ h => h⟩

theorem DeletedBehind.mono {path : Path σ ι} (h : DeletedBehind b r path) (hle : b.Le b') :
    DeletedBehind b' r path :=
  let ⟨d, hd, hr⟩ := h
  ⟨d, hle.records.subset hd, hr⟩

/-- **What is explained stays so.** -/
theorem Explained.mono (h : Explained b r) (hle : b.Le b') : Explained b' r := by
  unfold Explained at h ⊢
  split at h
  · exact h.imp (fun ⟨events, hs, hc⟩ => ⟨events, hle.ships _ hs, hc⟩) fun hd => hd.mono hle
  · exact h.imp (fun ⟨events, hs, hc⟩ => ⟨events, hle.ships _ hs, hc⟩) fun hd => hd.mono hle
  · exact h.imp (fun ⟨events, hs, hc⟩ => ⟨events, hle.ships _ hs, hc⟩) fun hd => hd.mono hle
  · trivial
  · trivial
  · trivial
  · exact h

/-! ### The invariant -/

section Invariant

variable (codec : Codec (Fields σ ι))

/-- **The records below a watermark**: so many, that end where it says, and all explained. -/
structure Covers (b : Past σ ι) (m : Mark) (before : List (Rec (Fields σ ι))) : Prop where
  records : before <+: b.records
  seq : before.length = m.replicatedSeq
  offset : (codec.text before).length = m.replicatedOffset
  explained : ∀ r ∈ before, Explained b r

/-- **A watermark that is right.** -/
def Mark.Ok (b : Past σ ι) (m : Mark) : Prop := ∃ before, Covers codec b m before

/-- A replicator knows of the records that come next. -/
def Ahead (b : Past σ ι) (m : Mark) (entries : List (Entry (Fields σ ι))) : Prop :=
  ∃ before rs, Covers codec b m before ∧ before ++ rs <+: b.records ∧
    entries = entriesOf codec (codec.text before).length rs

/-- The deletions found while a record is shipped are there. -/
def FoundTrue (b : Past σ ι) (e : Entry (Fields σ ι)) (events : List (ShipEvent σ ι)) : Prop :=
  ∀ path, FoundDeleted events path e.finish → DeletedBehind b e.record path

variable [DecidableEq σ]

/-- **What a replicator knows** at each stage of a round. -/
def Stage.Ok (b : Past σ ι) (m : Mark) : Stage σ ι → Prop
  | .idle => True
  | .reading | .failing _ | .finishing => m.Ok codec b
  | .shipping e rest prog events =>
    Ahead codec b m (e :: rest) ∧ Program.After (ship e) events prog ∧ FoundTrue b e events
  | .saving rest | .told rest => Ahead codec b m rest

/-- **A replicator that is right.** -/
structure Replicator.Ok (b : Past σ ι) (p : Replicator σ ι) : Prop where
  frozen : ∀ n, p.frozen = some n → ∃ before, before <+: b.records ∧ n = (codec.text before).length
  stage : p.stage.Ok codec b p.state

/-- **The invariant.** -/
structure Sound (w : ReplicationWorld σ ι) : Prop where
  intact : Intact codec w.journal
  marks : ∀ f ∈ w.markFile.versions, ∃ m, readReplicationState f = some m ∧ m.Ok codec w.past
  procs : ∀ pid p, w.procs pid = some p → p.Ok codec w.past

end Invariant

variable {codec : Codec (Fields σ ι)} {m : Mark}

theorem Covers.mono {before : List (Rec (Fields σ ι))} (h : Covers codec b m before)
    (hle : b.Le b') : Covers codec b' m before :=
  ⟨h.records.trans hle.records, h.seq, h.offset, fun r hr => (h.explained r hr).mono hle⟩

theorem Mark.Ok.mono (h : m.Ok codec b) (hle : b.Le b') : m.Ok codec b' :=
  let ⟨before, hc⟩ := h
  ⟨before, hc.mono hle⟩

theorem Ahead.mono {entries : List (Entry (Fields σ ι))} (h : Ahead codec b m entries)
    (hle : b.Le b') : Ahead codec b' m entries :=
  let ⟨before, rs, hc, hrs, he⟩ := h
  ⟨before, rs, hc.mono hle, hrs.trans hle.records, he⟩

theorem Ahead.ok {entries : List (Entry (Fields σ ι))} (h : Ahead codec b m entries) :
    m.Ok codec b :=
  let ⟨before, _, hc, _⟩ := h
  ⟨before, hc⟩

variable [DecidableEq σ]

/-- **What a replicator knows stays true.** -/
theorem Replicator.Ok.mono {p : Replicator σ ι} (h : p.Ok codec b) (hle : b.Le b') :
    p.Ok codec b' := by
  refine ⟨fun n hn => ?_, ?_⟩
  · obtain ⟨before, hb, hlen⟩ := h.frozen n hn
    exact ⟨before, hb.trans hle.records, hlen⟩
  · have hs := h.stage
    cases hstage : p.stage <;> rw [hstage] at hs
    · trivial
    · exact Mark.Ok.mono hs hle
    · obtain ⟨ha, hafter, hfound⟩ := hs
      exact ⟨ha.mono hle, hafter, fun path hp => (hfound path hp).mono hle⟩
    · exact Ahead.mono hs hle
    · exact Ahead.mono hs hle
    · exact Mark.Ok.mono hs hle
    · exact Mark.Ok.mono hs hle

/-! ### Reading the journal -/

omit [DecidableEq σ] in
theorem le_seq_of_mem {n : Nat} {rs : List (Rec (Fields σ ι))} (h : NumberedFrom n rs)
    (hr : r ∈ rs) : n ≤ r.seq := by
  induction rs generalizing n with
  | nil => cases hr
  | cons q rs ih =>
    rcases List.mem_cons.1 hr with rfl | hr
    · exact h.1.ge
    · have := ih h.2 hr
      omega

omit [DecidableEq σ] in
/-- The readers' limit and where they start are both ends of records: either the limit is not
behind the start, or what is between them is records. -/
theorem limit_cases (codec : Codec (Fields σ ι)) {records lim before : List (Rec (Fields σ ι))} (hlim : lim <+: records)
    (hbefore : before <+: records) :
    (codec.text lim).length ≤ (codec.text before).length ∨
      ∃ after, lim = before ++ after ∧ before ++ after <+: records := by
  rcases List.prefix_or_prefix_of_prefix hbefore hlim with ⟨after, rfl⟩ | ⟨more, rfl⟩
  · exact .inr ⟨after, rfl, hlim⟩
  · left
    rw [text_append, List.length_append]
    omega

omit [DecidableEq σ] in
/-- **What a read returns**: the records from where it starts. -/
theorem read_within {records lim before : List (Rec (Fields σ ι))} {more : Bytes} {maxBytes : Nat}
    {expectSeq : Option Nat} {entries : List (Entry (Fields σ ι))}
    (hnum : NumberedFrom 1 records) (hlim : lim <+: records) (hbefore : before <+: records)
    (h : readJournalFrom codec (codec.text records ++ more) (codec.text before).length maxBytes
      expectSeq (codec.text lim).length = .ok entries) :
    ∃ rs, before ++ rs <+: records ∧ entries = entriesOf codec (codec.text before).length rs := by
  rcases limit_cases codec hlim hbefore with hle | ⟨after, rfl, hafter⟩
  · refine ⟨[], by simpa using hbefore, ?_⟩
    unfold readJournalFrom at h
    dsimp only at h
    rw [if_pos (by omega)] at h
    exact (Except.ok.inj h).symm
  · obtain ⟨tail, rfl⟩ := hafter
    have hnum' := (numberedFrom_append.1 (numberedFrom_append.1 hnum).1).2
    have hcontent : codec.text (before ++ after ++ tail) ++ more =
        codec.text before ++ codec.text after ++ (codec.text tail ++ more) := by
      simp
    rw [hcontent, text_append] at h
    obtain ⟨rs, hrs, he⟩ := records_of_read hnum' h
    refine ⟨rs, ?_, he⟩
    exact ((List.prefix_append_right_inj before).2 hrs).trans (List.prefix_append _ _)

omit [DecidableEq σ] in
/-- The same for `iterate`. -/
theorem iterate_within {records lim before : List (Rec (Fields σ ι))} {more : Bytes}
    {maxBytes : Nat} (hnum : NumberedFrom 1 records) (hlim : lim <+: records)
    (hbefore : before <+: records) :
    ∃ rs, before ++ rs <+: records ∧
      (iterateJournal codec (codec.text records ++ more) (codec.text before).length maxBytes
        (codec.text lim).length).1.map Entry.record = rs := by
  rcases limit_cases codec hlim hbefore with hle | ⟨after, rfl, hafter⟩
  · refine ⟨[], by simpa using hbefore, ?_⟩
    unfold iterateJournal iterateRounds readJournalFrom
    dsimp only
    rw [if_pos (by omega)]
    rfl
  · refine ⟨_, ?_, rfl⟩
    have hprefix := hafter
    obtain ⟨tail, rfl⟩ := hafter
    have hnum' := (numberedFrom_append.1 (numberedFrom_append.1 hnum).1).2
    have hcontent : codec.text (before ++ after ++ tail) ++ more =
        codec.text (before ++ after) ++ (codec.text tail ++ more) := by
      simp
    unfold iterateJournal
    refine ((List.prefix_append_right_inj before).2 ?_).trans hprefix
    exact iterateRounds_prefix hnum' hcontent rfl

/-- Where a process reads the journal: a prefix of the records, all in the file. -/
theorem Sound.reads {w : ReplicationWorld σ ι} {pid : Nat} {p : Replicator σ ι}
    (h : Sound codec w) (hp : w.procs pid = some p) :
    ∃ lim more, lim <+: w.past.records ∧ p.limit w = (codec.text lim).length ∧
      w.journal.file.content = codec.text w.past.records ++ more := by
  obtain ⟨part, -, hcontent⟩ := h.intact.between.content
  unfold Replicator.limit
  cases hf : p.frozen with
  | some n =>
    obtain ⟨before, hbefore, rfl⟩ := (h.procs pid p hp).frozen n hf
    exact ⟨before, part, hbefore, rfl, hcontent⟩
  | none =>
    cases hj : w.journal.proc with
    | none => exact ⟨[], part, List.nil_prefix, rfl, hcontent⟩
    | some j =>
      obtain ⟨-, hoffset, -⟩ := h.intact.proc_ok j hj
      exact ⟨_, part, List.prefix_rfl, hoffset, hcontent⟩

/-! ### The steps of a round -/

omit [DecidableEq σ] in
/-- **A record that is shipped or skipped is explained**, now that its calls are kept. -/
theorem explained_of_settled {e : Entry (Fields σ ι)} {o : Outcome}
    {events : List (ShipEvent σ ι)} (hs : Settled e.record.fields e.finish (.ok o) events)
    (hfound : FoundTrue b e events) :
    Explained { b with ships := b.ships ++ [(e.record, events)] } e.record := by
  have hle : b.Le { b with ships := b.ships ++ [(e.record, events)] } :=
    ⟨List.prefix_rfl, fun s hs => List.mem_append_left _ hs⟩
  have hmem : (e.record, events) ∈ b.ships ++ [(e.record, events)] := by simp
  unfold Explained
  cases o with
  | shipped =>
    split
    · exact .inl ⟨events, hmem, hs⟩
    · exact .inl ⟨events, hmem, .inl hs⟩
    · exact .inl ⟨events, hmem, .inl hs⟩
    · trivial
    · trivial
    · trivial
    · rename_i hfields
      rw [hfields] at hs
      exact hs
  | skipped =>
    split <;> rename_i hfields <;> rw [hfields] at hs
    · exact .inr ((hfound _ hs).mono hle)
    · rcases hs with hs | hs
      · exact .inl ⟨events, hmem, .inr hs⟩
      · exact .inr ((hfound _ hs).mono hle)
    · rcases hs with hs | hs
      · exact .inl ⟨events, hmem, .inr hs⟩
      · exact .inr ((hfound _ hs).mono hle)
    · trivial
    · trivial
    · trivial
    · exact hs
  | kept =>
    split <;> rename_i hfields <;> rw [hfields] at hs
    · exact hs.elim
    · exact hs.elim
    · exact hs.elim
    · trivial
    · trivial
    · trivial
    · exact hs

/-- **The watermark moves past a record that `ship` returned for.** -/
theorem Ahead.advance {p : Replicator σ ι} {e : Entry (Fields σ ι)} {rest : List (Entry _)}
    {o : Outcome} {events : List (ShipEvent σ ι)} (hnum : NumberedFrom 1 b.records)
    (ha : Ahead codec b p.state (e :: rest)) (hafter : Program.After (ship e) events (.done o))
    (hfound : FoundTrue b e events) :
    Ahead codec { b with ships := b.ships ++ [(e.record, events)] } (p.advance e o).state rest := by
  obtain ⟨before, rs, hc, hrs, he⟩ := ha
  cases rs with
  | nil => cases he
  | cons r rs =>
    obtain ⟨rfl, rfl⟩ := List.cons.inj he
    have hle : b.Le { b with ships := b.ships ++ [(r, events)] } :=
      ⟨List.prefix_rfl, fun s hs => List.mem_append_left _ hs⟩
    have hrs' : before ++ [r] ++ rs <+: b.records := by simpa using hrs
    have hlen : (codec.text (before ++ [r])).length =
        (codec.text before).length + (codec.line r).length := by
      simp
    refine ⟨before ++ [r], rs, ⟨?_, ?_, ?_, ?_⟩, hrs', ?_⟩
    · exact (List.prefix_append _ _).trans hrs'
    · obtain ⟨tail, htail⟩ := hrs'
      rw [← htail] at hnum
      have := numberedFrom_concat (numberedFrom_append.1 (numberedFrom_append.1 hnum).1).1
      change (before ++ [r]).length = r.seq
      rw [this, List.length_append, List.length_singleton, Nat.add_comm]
    · exact hlen
    · intro q hq
      rcases List.mem_append.1 hq with hq | hq
      · exact (hc.explained q hq).mono hle
      · obtain rfl := List.mem_singleton.1 hq
        exact explained_of_settled ((ship_ends _).apply (x := .ok o) hafter) hfound
    · rw [hlen]

/-- What a replicator that is right leaves in the past, when it takes a step: a right replicator,
right versions of the watermark, and a past that has only grown. -/
structure StepOk (codec : Codec (Fields σ ι)) (w w' : ReplicationWorld σ ι)
    (p' : Replicator σ ι) : Prop where
  journal : w'.journal = w.journal
  procs : w'.procs = w.procs
  past : w.past.Le w'.past
  marks : ∀ f ∈ w'.markFile.versions, f ∈ w.markFile.versions ∨
    ∃ m, readReplicationState f = some m ∧ m.Ok codec w'.past
  proc : p'.Ok codec w'.past

section Steps

variable [DecidableEq ι] {w w' : ReplicationWorld σ ι} {p p' : Replicator σ ι} {pid : Nat}

omit [DecidableEq ι] in
theorem StepOk.same (h : p'.Ok codec w.past) : StepOk codec w w p' :=
  ⟨rfl, rfl, .refl _, fun _ hf => .inl hf, h⟩

omit [DecidableEq ι] in
/-- A step that only moves to another stage. -/
theorem Replicator.Ok.moves (h : p.Ok codec b) {s : Stage σ ι} (hs : s.Ok codec b p.state) :
    Replicator.Ok codec b { p with stage := s } := ⟨h.frozen, hs⟩

omit [DecidableEq ι] in
theorem Replicator.Ok.goOn (h : p.Ok codec b) {rest : List (Entry (Fields σ ι))}
    (ha : Ahead codec b p.state rest) : (p.goOn rest).Ok codec b := by
  cases rest with
  | nil => exact h.moves (s := .reading) ha.ok
  | cons e rest => exact h.moves (s := .shipping e rest (ship e) []) ⟨ha, .here _, nofun⟩

omit [DecidableEq ι] in
theorem runOnce_ok (h : Sound codec w) (hp : p.Ok codec w.past) (readOk : Bool) :
    (p.runOnce w readOk).Ok codec w.past := by
  unfold Replicator.runOnce
  split
  · split
    · exact hp
    · rename_i m hm
      refine ⟨hp.frozen, ?_⟩
      obtain ⟨m', hm', hok⟩ := h.marks _ w.markFile.content_mem_versions
      cases readOk with
      | false => cases hm
      | true =>
        rw [if_pos rfl, hm'] at hm
        exact Option.some.inj hm ▸ hok
  · exact hp

omit [DecidableEq ι] in
theorem read_ok (h : Sound codec w) (hproc : w.procs pid = some p) {ok : Bool}
    (hr : p.read codec w ok = some p') : p'.Ok codec w.past := by
  have hp := h.procs pid p hproc
  unfold Replicator.read at hr
  split at hr
  · rename_i hstage
    have hm := hp.stage
    rw [hstage] at hm
    split_ifs at hr
    · obtain rfl := Option.some.inj hr
      exact hp.moves (s := .failing .readFailed) hm
    · split at hr
      · obtain rfl := Option.some.inj hr
        exact hp.moves (s := .failing .readFailed) hm
      · obtain rfl := Option.some.inj hr
        exact hp.moves (s := .finishing) hm
      · rename_i e rest hread
        obtain rfl := Option.some.inj hr
        obtain ⟨before, hc⟩ := hm
        obtain ⟨lim, more, hlim, hlimit, hcontent⟩ := h.reads hproc
        rw [hcontent, hlimit, ← hc.offset] at hread
        obtain ⟨rs, hrs, he⟩ := read_within h.intact.numbered hlim hc.records hread
        exact hp.goOn ⟨before, rs, hc, hrs, he⟩
  · cases hr

/-- A deletion is found where one is. -/
theorem committedDeletion_true (h : Sound codec w) (hproc : w.procs pid = some p)
    {m : Mark} {e : Entry (Fields σ ι)} {rest : List (Entry (Fields σ ι))} {path : Path σ ι}
    (ha : Ahead codec w.past m (e :: rest))
    (hfound : p.committedDeletion codec w path e.finish = some true) :
    DeletedBehind w.past e.record path := by
  obtain ⟨before, rs, hc, hrs, he⟩ := ha
  obtain ⟨lim, more, hlim, hlimit, hcontent⟩ := h.reads hproc
  cases rs with
  | nil => cases he
  | cons r rs =>
    obtain ⟨rfl, rfl⟩ := List.cons.inj he
    have hnum := h.intact.numbered
    have hbefore : before ++ [r] <+: w.past.records :=
      List.IsPrefix.trans ⟨rs, by simp⟩ hrs
    have hfinish : (codec.text before).length + (codec.line r).length =
        (codec.text (before ++ [r])).length := by
      simp
    unfold Replicator.committedDeletion at hfound
    dsimp only at hfound
    rw [hcontent, hlimit, hfinish] at hfound
    obtain ⟨qs, hqs, hmap⟩ := iterate_within hnum hlim hbefore
    split_ifs at hfound with hany
    · obtain ⟨q, hq, hdelete⟩ := List.any_eq_true.1 hany
      have hmem : q.record ∈ qs := hmap ▸ List.mem_map_of_mem hq
      refine ⟨q.record, hqs.subset (List.mem_append_right _ hmem), ?_, by simpa using hdelete⟩
      obtain ⟨tail, htail⟩ := hqs
      have hnum' : NumberedFrom 1 (before ++ [r] ++ qs ++ tail) := htail ▸ hnum
      obtain ⟨hfirst, hlast⟩ := numberedFrom_append.1 (numberedFrom_append.1 hnum').1
      have hr := numberedFrom_concat hfirst
      have hq := le_seq_of_mem hlast hmem
      rw [List.length_append, List.length_singleton] at hq
      change r.seq < q.record.seq
      omega
    · exact absurd (Option.some.inj hfound) Bool.false_ne_true

omit [DecidableEq σ] [DecidableEq ι] in
theorem of_unlessThrown {α : Type} {io there : Option α} {a : α}
    (h : unlessThrown io there = some a) : there = some a := by
  unfold unlessThrown at h
  split at h
  · cases h
  · exact h

theorem answer_ok (h : Sound codec w) (hproc : w.procs pid = some p)
    {io : (c : Call σ ι) → Reply c} (hr : p.answer codec w io = some p') :
    p'.Ok codec w.past := by
  have hp := h.procs pid p hproc
  unfold Replicator.answer at hr
  split at hr
  · rename_i e rest c next events hstage
    have hs := hp.stage
    rw [hstage] at hs
    obtain ⟨ha, hafter, hfound⟩ := hs
    obtain rfl := Option.some.inj hr
    refine hp.moves (s := .shipping e rest (next _) (events ++ [⟨c, _⟩]))
      ⟨ha, hafter.answer _, fun path hpath => ?_⟩
    rcases List.mem_append.1 hpath with hpath | hpath
    · exact hfound path hpath
    · -- the call just answered looked behind this record
      have heq := List.mem_singleton.1 hpath
      have hasks := (hafter.asks (ship_asks e)).1
      cases c with
      | committedDeletion path' offset =>
        have hoffset := hasks path' offset rfl
        injection heq with hcall hreply
        injection hcall with hpath' hoff
        subst hpath' hoff
        have hreply := hreply.symm
        exact committedDeletion_true h hproc ha (of_unlessThrown hreply)
      | _ => cases heq
  · cases hr

omit [DecidableEq ι] in
theorem proceed_ok (h : Sound codec w) (hproc : w.procs pid = some p)
    (hr : p.proceed w = some (p', w')) : StepOk codec w w' p' := by
  have hp := h.procs pid p hproc
  unfold Replicator.proceed at hr
  split at hr
  · rename_i e rest o events hstage
    have hs := hp.stage
    rw [hstage] at hs
    obtain ⟨ha, hafter, hfound⟩ := hs
    obtain ⟨rfl, rfl⟩ := Prod.mk.inj (Option.some.inj hr)
    have hle : w.past.Le { w.past with ships := w.past.ships ++ [(e.record, events)] } :=
      ⟨List.prefix_rfl, fun s hs => List.mem_append_left _ hs⟩
    refine ⟨rfl, rfl, hle, fun _ hf => .inl hf, (hp.mono hle).frozen, ?_⟩
    exact ha.advance h.intact.numbered hafter hfound
  · rename_i error events hstage
    have hs := hp.stage
    rw [hstage] at hs
    obtain ⟨rfl, rfl⟩ := Prod.mk.inj (Option.some.inj hr)
    exact .same (hp.moves (s := .failing (.shipping error)) hs.1.ok)
  · cases hr

omit [DecidableEq σ] [DecidableEq ι] in
/-- Writing a right watermark leaves right versions, and the past as it was. -/
theorem writeState_ok {m : Mark} (hm : m.Ok codec w.past) {held : Bool} {io : WriteIo} {ok : Bool}
    (hr : Replicator.writeState w m held io = (w', ok)) :
    w'.journal = w.journal ∧ w'.procs = w.procs ∧ w'.past = w.past ∧
      ∀ f ∈ w'.markFile.versions, f ∈ w.markFile.versions ∨
        ∃ m, readReplicationState f = some m ∧ m.Ok codec w.past := by
  unfold Replicator.writeState at hr
  split_ifs at hr
  · obtain ⟨rfl, -⟩ := Prod.mk.inj hr
    exact ⟨rfl, rfl, rfl, fun f hf => .inl hf⟩
  · obtain ⟨rfl, -⟩ := Prod.mk.inj hr
    refine ⟨rfl, rfl, rfl, fun f hf => ?_⟩
    rcases Replaced.mem_versions_write hf with rfl | hf
    · exact .inr ⟨m, rfl, hm⟩
    · exact .inl hf

omit [DecidableEq σ] [DecidableEq ι] in
/-- The counters of a failure are not what a watermark stands for. -/
theorem Mark.Ok.counted {m : Mark} (h : m.Ok codec b) (failedRounds : Nat)
    (lastRoundAt : Option Int) :
    Mark.Ok codec b { m with failedRounds, lastRoundAt } :=
  let ⟨before, hc⟩ := h
  ⟨before, hc.records, hc.seq, hc.offset, hc.explained⟩

omit [DecidableEq ι] in
theorem write_ok (h : Sound codec w) (hproc : w.procs pid = some p) {held : Bool} {io : WriteIo}
    {now : Int} (hr : p.write w held io now = some (p', w')) : StepOk codec w w' p' := by
  have hp := h.procs pid p hproc
  have hwrites : ∀ {m : Mark} {w₁ : ReplicationWorld σ ι} {ok : Bool} {q : Replicator σ ι},
      m.Ok codec w.past → Replicator.writeState w m held io = (w₁, ok) → q.Ok codec w.past →
        StepOk codec w w₁ q := by
    intro m w₁ ok q hm hw hq
    obtain ⟨hjournal, hprocs, hpast, hmarks⟩ := writeState_ok hm hw
    exact ⟨hjournal, hprocs, hpast ▸ .refl _, hpast ▸ hmarks, hpast ▸ hq⟩
  unfold Replicator.write at hr
  have hs := hp.stage
  split at hr
  · rename_i rest hstage
    rw [hstage] at hs
    split at hr
    · rename_i hw
      obtain ⟨rfl, rfl⟩ := Prod.mk.inj (Option.some.inj hr)
      exact hwrites hs.ok hw (hp.moves (s := .told rest) hs)
    · rename_i hw
      obtain ⟨rfl, rfl⟩ := Prod.mk.inj (Option.some.inj hr)
      exact hwrites hs.ok hw (hp.moves (s := .failing .writeFailed) hs.ok)
  · rename_i error hstage
    rw [hstage] at hs
    dsimp only at hr
    split at hr
    · rename_i hw
      obtain ⟨rfl, rfl⟩ := Prod.mk.inj (Option.some.inj hr)
      exact hwrites (Mark.Ok.counted hs _ _) hw ⟨hp.frozen, trivial⟩
    · rename_i hw
      obtain ⟨rfl, rfl⟩ := Prod.mk.inj (Option.some.inj hr)
      exact hwrites (Mark.Ok.counted hs _ _) hw (hp.moves (s := .idle) trivial)
  · rename_i hstage
    rw [hstage] at hs
    dsimp only at hr
    split at hr
    · rename_i hw
      obtain ⟨rfl, rfl⟩ := Prod.mk.inj (Option.some.inj hr)
      exact hwrites (Mark.Ok.counted hs _ _) hw ⟨hp.frozen, trivial⟩
    · rename_i hw
      obtain ⟨rfl, rfl⟩ := Prod.mk.inj (Option.some.inj hr)
      exact hwrites (Mark.Ok.counted hs _ _) hw (hp.moves (s := .idle) trivial)
  · cases hr

omit [DecidableEq ι] in
theorem onShipped_ok (hp : p.Ok codec b) {ok : Bool} (hr : p.onShipped ok = some p') :
    p'.Ok codec b := by
  unfold Replicator.onShipped at hr
  have hs := hp.stage
  split at hr
  · rename_i rest hstage
    rw [hstage] at hs
    obtain rfl := Option.some.inj hr
    cases ok with
    | true => exact hp.goOn hs
    | false => exact hp.moves (s := .failing .onShippedFailed) hs.ok
  · cases hr

/-- **Every step of a replicator leaves a right one.** -/
theorem step_ok (h : Sound codec w) (hproc : w.procs pid = some p) {a : Act σ ι}
    (hr : p.step codec w a = some (p', w')) : StepOk codec w w' p' := by
  have hp := h.procs pid p hproc
  cases a with
  | runOnce readOk =>
    obtain ⟨rfl, rfl⟩ := Prod.mk.inj (Option.some.inj hr)
    exact .same (runOnce_ok h hp readOk)
  | stop =>
    obtain ⟨rfl, rfl⟩ := Prod.mk.inj (Option.some.inj hr)
    exact .same ⟨hp.frozen, hp.stage⟩
  | read ok =>
    obtain ⟨q, hq, heq⟩ := Option.map_eq_some_iff.1 hr
    obtain ⟨rfl, rfl⟩ := Prod.mk.inj heq
    exact .same (read_ok h hproc hq)
  | answer io =>
    obtain ⟨q, hq, heq⟩ := Option.map_eq_some_iff.1 hr
    obtain ⟨rfl, rfl⟩ := Prod.mk.inj heq
    exact .same (answer_ok h hproc hq)
  | proceed => exact proceed_ok h hproc hr
  | write held io now => exact write_ok h hproc hr
  | onShipped ok =>
    obtain ⟨q, hq, heq⟩ := Option.map_eq_some_iff.1 hr
    obtain ⟨rfl, rfl⟩ := Prod.mk.inj heq
    exact .same (onShipped_ok hp hq)

end Steps

/-! ### The moves of the world -/

section Moves

variable {w w' : ReplicationWorld σ ι}

omit [DecidableEq σ] in
theorem history_append {v v' : JournalWorld (Fields σ ι)} {fields : Fields σ ι}
    (h : v.append fields = some v') : v'.history = v.history := by
  unfold JournalWorld.append at h
  split at h
  · cases h
  · obtain rfl := Option.some.inj h
    rfl

omit [DecidableEq σ] in
/-- A call of an append leaves the records there were. -/
theorem kept_prefix_of_call {v v' : JournalWorld (Fields σ ι)} {io : AppendIo}
    (h : v.call codec io = some v') : keptRecords v.history <+: keptRecords v'.history := by
  unfold JournalWorld.call at h
  split at h
  · cases h
  · split at h
    · cases h
    · obtain rfl := Option.some.inj h
      rw [keptRecords_append]
      exact List.prefix_append _ _

omit [DecidableEq σ] in
theorem kept_prefix_of_opens {v v' : JournalWorld (Fields σ ι)} {io : OpenIo}
    (h : v.opens codec io = some v') : keptRecords v.history <+: keptRecords v'.history := by
  unfold JournalWorld.opens at h
  split at h
  · cases h
  · split at h
    · obtain rfl := Option.some.inj h
      exact List.prefix_rfl
    · obtain rfl := Option.some.inj h
      rw [keptRecords_append]
      exact List.prefix_append _ _

/-- **The rule for a move**: the journal stays intact, the past grows, no version of the watermark
comes in that is not right, and no process that is not right. -/
theorem Sound.moves (h : Sound codec w) (hintact : Intact codec w'.journal)
    (hpast : w.past.Le w'.past)
    (hmarks : ∀ f ∈ w'.markFile.versions, f ∈ w.markFile.versions ∨
      ∃ m, readReplicationState f = some m ∧ m.Ok codec w'.past)
    (hprocs : ∀ pid p, w'.procs pid = some p → w.procs pid = some p ∨ p.Ok codec w'.past) :
    Sound codec w' := by
  refine ⟨hintact, fun f hf => ?_, fun pid p hp => ?_⟩
  · rcases hmarks f hf with hf | hok
    · obtain ⟨m, hm, hok⟩ := h.marks f hf
      exact ⟨m, hm, hok.mono hpast⟩
    · exact hok
  · rcases hprocs pid p hp with hp | hok
    · exact (h.procs pid p hp).mono hpast
    · exact hok

omit [DecidableEq σ] in
/-- A process set to something. -/
theorem procs_setProc {pid pid' : Nat} {q : Option (Replicator σ ι)} {p : Replicator σ ι}
    (hp : (w.setProc pid q).procs pid' = some p) : w.procs pid' = some p ∨ q = some p := by
  unfold ReplicationWorld.setProc at hp
  dsimp only at hp
  split_ifs at hp
  · exact .inr hp
  · exact .inl hp

omit [DecidableEq σ] in
theorem intact_closed (h : Intact codec w.journal) : Intact codec w.closed :=
  ⟨h.numbered, h.flight_seq, h.between, nofun⟩

theorem sound_opens (h : Sound codec w) {pid chunkBytes : Nat} {io : OpenIo}
    (hnext : w.opens codec pid chunkBytes io = some w') : Sound codec w' := by
  unfold ReplicationWorld.opens at hnext
  split at hnext
  · obtain ⟨journal, hopens, heq⟩ := Option.map_eq_some_iff.1 hnext
    have hintact := intact_opens h.intact hopens
    have hle : w.past.Le { w.past with records := keptRecords journal.history } :=
      ⟨kept_prefix_of_opens hopens, fun _ hs => hs⟩
    split at heq
    · obtain rfl := heq
      exact h.moves hintact hle (fun _ hf => .inl hf) fun _ _ hp => .inl hp
    · obtain rfl := heq
      refine h.moves hintact hle (fun _ hf => .inl hf) fun pid' p hp => ?_
      rcases procs_setProc hp with hp | hp
      · exact .inl hp
      · obtain rfl := Option.some.inj hp
        exact .inr ⟨nofun, trivial⟩
  · cases hnext

theorem sound_dies (h : Sound codec w) (pid : Nat) : Sound codec (w.dies pid) := by
  unfold ReplicationWorld.dies
  split_ifs
  · refine h.moves (intact_closed h.intact) (.refl _) (fun _ hf => .inl hf) fun pid' p hp => ?_
    exact .inl ((procs_setProc hp).resolve_right nofun)
  · refine h.moves h.intact (.refl _) (fun _ hf => .inl hf) fun pid' p hp => ?_
    exact .inl ((procs_setProc hp).resolve_right nofun)

theorem sound_loses (h : Sound codec w) (hnext : w.loses = some w') : Sound codec w' := by
  unfold ReplicationWorld.loses at hnext
  split at hnext
  · rename_i pid j _ hj
    obtain ⟨p, hp, rfl⟩ := Option.map_eq_some_iff.1 hnext
    refine h.moves (intact_closed h.intact) (.refl _) (fun _ hf => .inl hf) fun pid' q hq => ?_
    rcases procs_setProc hq with hq | hq
    · exact .inl hq
    · obtain rfl := Option.some.inj hq
      -- its journal goes on at the offset that was committed
      refine .inr ⟨fun n hn => ⟨_, List.prefix_rfl, ?_⟩, (h.procs pid p hp).stage⟩
      rw [← Option.some.inj hn]
      exact (h.intact.proc_ok j hj).2.1
  · cases hnext

theorem sound_powerLoss (h : Sound codec w) {left : Bytes} {mark : MarkFile}
    (hnext : w.powerLoss left mark = some w') : Sound codec w' := by
  unfold ReplicationWorld.powerLoss at hnext
  split_ifs at hnext with hleft
  obtain rfl := Option.some.inj hnext
  refine h.moves (intact_powerLoss h.intact hleft.1) (.refl _) (fun f hf => .inl ?_)
    fun _ _ hp => absurd hp.symm (Option.some_ne_none _)
  rw [List.mem_singleton.1 hf]
  exact hleft.2

variable [DecidableEq ι]

theorem sound_replicator (h : Sound codec w) {pid : Nat} {a : Act σ ι}
    (hnext : w.replicator codec pid a = some w') : Sound codec w' := by
  unfold ReplicationWorld.replicator at hnext
  split at hnext
  · cases hnext
  · rename_i p hp
    obtain ⟨⟨p', w₁⟩, hstep, rfl⟩ := Option.map_eq_some_iff.1 hnext
    have hok := step_ok h hp hstep
    refine h.moves (hok.journal ▸ h.intact) hok.past hok.marks fun pid' q hq => ?_
    rcases procs_setProc hq with hq | hq
    · exact .inl (hok.procs ▸ hq)
    · exact .inr (Option.some.inj hq ▸ hok.proc)

/-- **The step lemma.** -/
theorem Sound.next (h : Sound codec w) {a : ReplicationMove σ ι}
    (hnext : w.next codec a = some w') : Sound codec w' := by
  cases a with
  | opens pid chunkBytes io => exact sound_opens h hnext
  | append fields =>
    obtain ⟨journal, ha, rfl⟩ := Option.map_eq_some_iff.1 hnext
    refine h.moves (intact_append h.intact ha) ⟨?_, fun _ hs => hs⟩ (fun _ hf => .inl hf)
      fun _ _ hp => .inl hp
    change keptRecords w.journal.history <+: keptRecords journal.history
    rw [history_append ha]
  | call io =>
    obtain ⟨journal, hc, rfl⟩ := Option.map_eq_some_iff.1 hnext
    exact h.moves (intact_call h.intact hc) ⟨kept_prefix_of_call hc, fun _ hs => hs⟩
      (fun _ hf => .inl hf) fun _ _ hp => .inl hp
  | disk objects metas =>
    obtain rfl := Option.some.inj hnext
    exact h.moves h.intact (.refl _) (fun _ hf => .inl hf) fun _ _ hp => .inl hp
  | replicator pid a => exact sound_replicator h hnext
  | dies pid =>
    obtain rfl := Option.some.inj hnext
    exact sound_dies h pid
  | loses => exact sound_loses h hnext
  | powerLoss left mark => exact sound_powerLoss h hnext

/-- **Every run keeps it.** -/
theorem sound_reach (h : (replicationMachine codec).Reach (fun _ _ => True) w) :
    Sound codec w := by
  refine h.invariant (P := Sound codec) (fun w hw => ?_) fun _ _ _ hs _ hnext => hs.next hnext
  obtain rfl := hw
  refine ⟨intact_start rfl, fun f hf => ?_, fun _ _ hp => absurd hp.symm (Option.some_ne_none _)⟩
  obtain rfl := List.mem_singleton.1 hf
  exact ⟨{}, rfl, [], List.nil_prefix, rfl, rfl, by simp⟩

end Moves

/-- **What the watermark stands for**, at every moment of every run.  The watermark's file can be
read; its sequence number and its byte offset name the same end of a record of the journal; and
every record at or below it is explained. -/
theorem watermark_explained [DecidableEq ι] {w : ReplicationWorld σ ι}
    (h : (replicationMachine codec).Reach (fun _ _ => True) w) :
    ∃ m, readReplicationState w.markFile.content = some m ∧
      (∃ before after, keptRecords w.journal.history = before ++ after ∧
        before.map Rec.seq = List.range' 1 m.replicatedSeq ∧
        w.journal.file.content.take m.replicatedOffset = codec.text before ∧
        m.replicatedOffset = (codec.text before).length) ∧
      ∀ r ∈ keptRecords w.journal.history, r.seq ≤ m.replicatedSeq → Explained w.past r := by
  have hs := sound_reach h
  obtain ⟨m, hm, before, hc⟩ := hs.marks _ w.markFile.content_mem_versions
  obtain ⟨part, -, hcontent⟩ := hs.intact.between.content
  obtain ⟨after, hafter⟩ := hc.records
  have hkept : keptRecords w.journal.history = before ++ after := hafter.symm
  have hnum := hs.intact.numbered
  rw [hkept] at hnum hcontent
  obtain ⟨hfirst, hlast⟩ := numberedFrom_append.1 hnum
  refine ⟨m, hm, ⟨before, after, hkept, ?_, ?_, hc.offset.symm⟩, fun r hr hle => ?_⟩
  · rw [numberedFrom_seq hfirst, hc.seq]
  · rw [hcontent, ← hc.offset, text_append, List.append_assoc, List.take_left]
  · rcases List.mem_append.1 (hkept ▸ hr) with hr | hr
    · exact hc.explained r hr
    · have := le_seq_of_mem hlast hr
      have := hc.seq
      omega

/-! ### A run -/

/-- The path of the one blob or of the one manifest. -/
def pathText : Path Unit Unit → JsString
  | .blob () => js "blobs/e3/b0/e3b0"
  | .manifest () => js "manifests/1.json"

/-- What an object is. -/
def kindText : Path Unit Unit → JsString
  | .blob () => js "blob"
  | .manifest () => js "manifest"

/-- What a record says in a store with one blob and one job. -/
def unitSaid : Fields Unit Unit → List (JsString × Scalar)
  | .put path () size =>
    [(js "kind", .word (kindText path)), (js "path", .word (pathText path)),
      (js "sha256", .word (js "e3b0")), (js "size", .whole size)]
  | .terminal () terminalAt =>
    [(js "kind", .word (js "terminal")), (js "job", .word (js "1")),
      (js "terminalAt", .whole terminalAt)]
  | .pin () pinned =>
    [(js "kind", .word (js "pin")), (js "job", .word (js "1")),
      (js "pinned", .whole (if pinned then 1 else 0))]
  | .deleteIntent path =>
    [(js "kind", .word (js "delete-intent")), (js "path", .word (pathText path))]
  | .delete path => [(js "kind", .word (js "delete")), (js "path", .word (pathText path))]
  | .deleteCancel path =>
    [(js "kind", .word (js "delete-cancel")), (js "path", .word (pathText path))]
  | .other => [(js "kind", .word (js "other"))]

/-- What is known from that. -/
def unitKnown : List (JsString × Scalar) → Option (Fields Unit Unit)
  | [(_, .word _), (_, .word path), (_, .word _), (_, .whole size)] =>
    some (.put (unitPath path) () size.toNat)
  | [(_, .word kind), (_, .word _), (_, .whole n)] =>
    some (if kind = js "terminal" then .terminal () n else .pin () (n = 1))
  | [(_, .word kind), (_, .word path)] =>
    some (if kind = js "delete" then .delete (unitPath path)
      else if kind = js "delete-intent" then .deleteIntent (unitPath path)
      else .deleteCancel (unitPath path))
  | _ => some .other
where
  unitPath (path : JsString) : Path Unit Unit :=
    if path = pathText (.blob ()) then .blob () else .manifest ()

theorem unitKnown_unitSaid (f : Fields Unit Unit) : unitKnown (unitSaid f) = some f := by
  cases f with
  | put path _ size | deleteIntent path | delete path | deleteCancel path =>
    rcases path with ⟨⟨⟩⟩ | ⟨⟨⟩⟩ <;> rfl
  | terminal job terminalAt => rfl
  | pin job pinned => cases pinned <;> rfl
  | other => rfl

theorem openBrace_not_mem_unitSaid (f : Fields Unit Unit) :
    ∀ m ∈ unitSaid f, 0x7b ∉ JsonText.quote m.1 ∧ 0x7b ∉ m.2.text := by
  have hpath : ∀ path : Path Unit Unit, 0x7b ∉ (Scalar.word (pathText path)).text ∧
      0x7b ∉ (Scalar.word (kindText path)).text := by
    rintro (⟨⟨⟩⟩ | ⟨⟨⟩⟩) <;> decide
  cases f <;> simp only [unitSaid, List.forall_mem_cons, List.not_mem_nil, false_imp_iff,
    implies_true, and_true, hpath, Scalar.openBrace_not_mem_whole, not_false_eq_true] <;> decide

/-- The codec of a store with one blob and one job. -/
def unitCodec : Codec (Fields Unit Unit) :=
  jsonCodec unitSaid unitKnown unitKnown_unitSaid openBrace_not_mem_unitSaid

/-- A replica that has the one blob. -/
def hasBlob : (c : Call Unit Unit) → Reply c
  | .existsSync _ => true
  | .committedDeletion _ _ => some false
  | .hashFile _ => some ((), 0)
  | .storeMeta _ => some {}
  | .putObject _ => PutReply.stored
  | .verifyObject _ => some (some ((), 0))
  | .setTerminal _ _ => some false
  | .setPin _ _ => some false
  | .jobMeta _ => some none

/-- One blob is journaled and shipped. -/
def shipsOneBlob : List (ReplicationMove Unit Unit) :=
  [.opens 0 100 {}, .append (.put (.blob ()) () 0), .call (.wrote 75), .call (.sync true),
    .disk ⟨[(.blob (), ((), 0))]⟩ .empty, .replicator 0 (.runOnce true),
    .replicator 0 (.read true), .replicator 0 (.answer hasBlob), .replicator 0 (.answer hasBlob),
    .replicator 0 (.answer hasBlob), .replicator 0 .proceed,
    .replicator 0 (.write true .written 7), .replicator 0 (.onShipped true)]

/-- A store that was just set up. -/
def newPrimary : ReplicationWorld Unit Unit where
  journal := { file := { content := [] }, proc := none, flight := none, history := [] }

/-- The watermark behind one blob. -/
theorem watermark_explained_oneBlob :
    ∃ w, (replicationMachine unitCodec).exec newPrimary shipsOneBlob = some w ∧
      w.markFile.content = .format2 { replicatedSeq := 1, replicatedOffset := 75 } ∧
      Explained w.past ⟨1, .put (.blob ()) () 0⟩ := by
  obtain ⟨w, hw⟩ := Option.isSome_iff_exists.1
    (by decide +kernel : ((replicationMachine unitCodec).exec newPrimary shipsOneBlob).isSome)
  have hreach : (replicationMachine unitCodec).Reach (fun _ _ => True) w :=
    Machine.reach_of_exec shipsOneBlob (.start rfl) (Machine.along_of_forall (fun _ _ => trivial) _ _) hw
  have hfile : ((replicationMachine unitCodec).exec newPrimary shipsOneBlob).map
      (fun w => (w.markFile.content, keptRecords w.journal.history)) =
        some (.format2 { replicatedSeq := 1, replicatedOffset := 75 },
          [⟨1, .put (.blob ()) () 0⟩]) := by
    decide +kernel
  rw [hw] at hfile
  obtain ⟨hmark, hkept⟩ := Prod.mk.inj (Option.some.inj hfile)
  obtain ⟨m, hm, -, hexplained⟩ := watermark_explained hreach
  rw [hmark] at hm
  obtain rfl := Option.some.inj hm
  exact ⟨w, hw, hmark, hexplained _ (by simp [hkept]) le_rfl⟩

end Store
end LaneBroker
