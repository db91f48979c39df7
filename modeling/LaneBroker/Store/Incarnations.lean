/-
# The journal over many incarnations

Any number of processes open the journal one after the other.  Each appends, and every call of
an append may fail; the process may die at any point, and so may the host, which then leaves
of the unsynced bytes what it likes.  `JournalWorld` is the file, the process and what has
happened; `Intact` is the invariant: the file is the text of the records kept, and behind it
at most some bytes of one record whose append neither returned nor was rolled back.
-/

import LaneBroker.Basis.Machine
import LaneBroker.Store.JournalText

namespace LaneBroker
namespace Store

open LaneBroker.Basis

/-- **What has happened to the journal**: an append returned, an append threw and its record was
rolled back, or a process opened the journal and found the one record left behind by the process
before it, if that record was whole. -/
inductive Happened (φ : Type)
  | acked (r : Rec φ)
  | rolledBack (r : Rec φ)
  | opened (left : Option (Rec φ))
  deriving DecidableEq, Repr

/-- The record an event put in the journal. -/
def Happened.kept {φ : Type} : Happened φ → List (Rec φ)
  | acked r => [r]
  | rolledBack _ => []
  | opened left => left.toList

/-- **The records of the journal**, by what has happened: incarnation by incarnation the
acknowledged ones in order, and then the one left behind, if any. -/
def keptRecords {φ : Type} (history : List (Happened φ)) : List (Rec φ) :=
  history.flatMap Happened.kept

/-- **The journal's file and its process.** -/
structure JournalWorld (φ : Type) where
  file : SyncedFile
  proc : Option (Journal φ)
  /-- The record whose append is neither done nor undone. -/
  flight : Option (Rec φ)
  history : List (Happened φ)
  deriving DecidableEq, Repr

/-- **The moves.** -/
inductive JournalMove (φ : Type)
  | opens (io : OpenIo)
  | append (fields : φ)
  | call (io : AppendIo)
  | dies
  /-- The host dies, and leaves these bytes. -/
  | powerLoss (left : Bytes)

variable {φ : Type} (codec : Codec φ)

/-- What the end of an append adds to the history. -/
def AppendEnd.happened (e : AppendEnd) (r : Rec φ) : List (Happened φ) :=
  match e with
  | .returned => [.acked r]
  | .rolledBack => [.rolledBack r]
  | .broken => []

/-- The record still in flight after a call of an append. -/
def flightAfter (flight : Option (Rec φ)) : Option AppendEnd → Option (Rec φ)
  | some .returned | some .rolledBack => none
  | some .broken | none => flight

namespace JournalWorld

/-- A process opens the journal, if none has it. -/
def opens (w : JournalWorld φ) (io : OpenIo) : Option (JournalWorld φ) :=
  match w.proc with
  | some _ => none
  | none =>
    match openJournal codec w.file io with
    | (file, none) => some { w with file }
    | (file, some j) =>
      let left := if j.committedSeq = (keptRecords w.history).length then none else w.flight
      some { file, proc := some j, flight := none, history := w.history ++ [.opened left] }

/-- The process begins an append. -/
def append (w : JournalWorld φ) (fields : φ) : Option (JournalWorld φ) :=
  match w.proc.bind fun j => j.begin fields with
  | none => none
  | some j =>
    let flight := match j.pc with
      | .writing r _ => some r
      | _ => w.flight
    some { w with proc := some j, flight }

/-- The process makes the next call of its append. -/
def call (w : JournalWorld φ) (io : AppendIo) : Option (JournalWorld φ) :=
  match w.proc with
  | none => none
  | some j =>
    match j.step codec w.file io with
    | none => none
    | some (file, j, ended) =>
      let happened :=
        match w.flight, ended with
        | some r, some e => e.happened r
        | _, _ => []
      some
        { file
          proc := some j
          flight := flightAfter w.flight ended
          history := w.history ++ happened }

/-- **One move.** -/
def next (w : JournalWorld φ) : JournalMove φ → Option (JournalWorld φ)
  | .opens io => w.opens codec io
  | .append fields => w.append fields
  | .call io => w.call codec io
  | .dies => w.proc.map fun _ => { w with proc := none }
  | .powerLoss left =>
    if w.file.Survives left then
      some { w with file := SyncedFile.restarted left, proc := none }
    else none

end JournalWorld

/-- **The journal machine**, which starts on an empty file. -/
def journalMachine : Machine (JournalWorld φ) (JournalMove φ) where
  start w := w = { file := { content := [] }, proc := none, flight := none, history := [] }
  next := JournalWorld.next codec

/-! ### The invariant -/

/-- The bytes of the record in flight. -/
def flightLine (flight : Option (Rec φ)) : Bytes :=
  match flight with
  | none => []
  | some r => codec.line r

/-- **What the process knows of the file** at each point of an append. -/
def PcOk (j : Journal φ) (w : JournalWorld φ) (base : Bytes) : Prop :=
  match j.pc with
  | .idle => j.broken = true ∨ (w.flight = none ∧ w.file.earlier = [] ∧ w.file.content = base)
  | .writing r done =>
    j.broken = false ∧ w.flight = some r ∧ done ≤ (codec.line r).length ∧
      w.file.content = base ++ (codec.line r).take done
  | .written r => j.broken = false ∧ w.flight = some r ∧ w.file.content = base ++ codec.line r
  | .failed r => j.broken = false ∧ w.flight = some r
  | .truncated r => j.broken = false ∧ w.flight = some r ∧ w.file.content = base

/-- **The invariant**: the file is the text of the kept records and a part of the record in
flight, and has been nothing else since it was last synced. -/
structure Intact (w : JournalWorld φ) : Prop where
  numbered : NumberedFrom 1 (keptRecords w.history)
  flight_seq : ∀ r, w.flight = some r → r.seq = (keptRecords w.history).length + 1
  between : w.file.Between (codec.text (keptRecords w.history)) (flightLine codec w.flight)
  proc_ok : ∀ j, w.proc = some j →
    j.committedSeq = (keptRecords w.history).length ∧
      j.committedOffset = (codec.text (keptRecords w.history)).length ∧
      PcOk codec j w (codec.text (keptRecords w.history))

variable {codec}

theorem intact_start {w : JournalWorld φ} (h : (journalMachine codec).start w) :
    Intact codec w := by
  obtain rfl := h
  refine ⟨trivial, nofun, ?_, nofun⟩
  exact SyncedFile.between_of_synced rfl rfl

@[simp] theorem keptRecords_append (hs gs : List (Happened φ)) :
    keptRecords (hs ++ gs) = keptRecords hs ++ keptRecords gs := by
  simp [keptRecords]

/-! ### Opening keeps it -/

theorem dropTornTail_cases {file : SyncedFile} (io : OpenIo) {rs : List (Rec φ)} {part : Bytes}
    (hcontent : file.content = codec.text rs ++ part) (hpart : newline ∉ part) :
    dropTornTail file io = (file, false) ∨ (part = [] ∧ dropTornTail file io = (file, true)) ∨
      dropTornTail file io = (file.truncate (codec.text rs).length, false) ∨
        dropTornTail file io = ((file.truncate (codec.text rs).length).sync, true) := by
  unfold dropTornTail
  rcases tornSize_text codec rs hpart with h | h
  · rw [hcontent, h]
    exact .inl rfl
  · rw [← hcontent] at h
    rw [h]
    dsimp only
    split_ifs with hsize
    · refine .inr (.inl ⟨?_, rfl⟩)
      rw [hcontent, List.length_append] at hsize
      exact List.length_eq_zero_iff.1 (by omega)
    · exact .inl rfl
    · exact .inr (.inr (.inr rfl))
    · exact .inr (.inr (.inl rfl))

/-- A file of whole lines, once its tail is looked at: the constructor syncs it and takes its
size. -/
theorem openJournal_text {file file' : SyncedFile} {io : OpenIo} {rs : List (Rec φ)} {j : Journal φ}
    (hnum : NumberedFrom 1 rs) {dropped : SyncedFile} (hdrop : dropTornTail file io = (dropped, true))
    (hcontent : dropped.content = codec.text rs)
    (h : openJournal codec file io = (file', some j)) :
    file' = dropped.sync ∧
      j = { committedSeq := rs.length, committedOffset := (codec.text rs).length } := by
  unfold openJournal at h
  rw [hdrop] at h
  dsimp only at h
  have hsync : dropped.sync.content = codec.text rs := hcontent
  rw [hsync] at h
  rcases tailSeq_text codec hnum with ht | ht
  · rw [ht] at h
    dsimp only at h
    split_ifs at h
    · cases h
    · cases h
  · rw [ht] at h
    dsimp only at h
    split_ifs at h
    · cases h
    · cases h
    · obtain ⟨rfl, hj⟩ := Prod.mk.inj h
      exact ⟨rfl, (Option.some.inj hj).symm⟩

/-- The constructor only syncs what `dropTornTail` left. -/
theorem openJournal_file (codec : Codec φ) {file dropped : SyncedFile} {io : OpenIo} {ok : Bool}
    (hdrop : dropTornTail file io = (dropped, ok)) :
    (openJournal codec file io).1 = dropped ∨ (openJournal codec file io).1 = dropped.sync := by
  unfold openJournal
  rw [hdrop]
  cases ok with
  | false => exact .inl rfl
  | true =>
    dsimp only
    by_cases hsync : (!io.syncOk) = true
    · rw [if_pos hsync]
      exact .inl rfl
    · rw [if_neg hsync]
      right
      split
      · rfl
      · split_ifs <;> rfl

/-- **What opening comes to**, on a file with a part of one record behind its text: the file
still has no more than that behind it, and a journal that opens has taken the record in if it
was whole. -/
theorem openJournal_spec {file : SyncedFile} (io : OpenIo) {rs : List (Rec φ)}
    {flight : Option (Rec φ)} (hnum : NumberedFrom 1 rs)
    (hflight : ∀ r, flight = some r → r.seq = rs.length + 1)
    (hbetween : file.Between (codec.text rs) (flightLine codec flight)) :
    (openJournal codec file io).1.Between (codec.text rs) (flightLine codec flight) ∧
      ∀ file' j, openJournal codec file io = (file', some j) →
        ∃ left, (left = none ∨ left = flight) ∧ NumberedFrom 1 (rs ++ left.toList) ∧
          file'.earlier = [] ∧ file'.content = codec.text (rs ++ left.toList) ∧
          j = { committedSeq := (rs ++ left.toList).length
                committedOffset := (codec.text (rs ++ left.toList)).length } := by
  obtain ⟨part, hpart, hcontent⟩ := hbetween.content
  by_cases hwhole : ∃ r, flight = some r ∧ part = codec.line r
  · -- the record in flight is there, whole
    obtain ⟨r, rfl, rfl⟩ := hwhole
    have htext : file.content = codec.text (rs ++ [r]) ++ [] := by simp [hcontent]
    have hnum' : NumberedFrom 1 (rs ++ [r]) := by
      refine numberedFrom_append.2 ⟨hnum, ?_, trivial⟩
      rw [hflight r rfl, Nat.add_comm]
    have hdrop : dropTornTail file io = (file, false) ∨ dropTornTail file io = (file, true) := by
      have hnone : newline ∉ ([] : Bytes) := List.not_mem_nil
      have htorn := tornSize_text codec (rs ++ [r]) hnone
      rw [← htext] at htorn
      unfold dropTornTail
      rcases htorn with h | h
      · rw [h]
        exact .inl rfl
      · rw [h, List.append_nil] at *
        rw [htext]
        simp
    refine ⟨?_, fun file' j h => ?_⟩
    · have hfile : (openJournal codec file io).1 = file ∨ (openJournal codec file io).1 = file.sync := by
        rcases hdrop with hd | hd <;> exact openJournal_file codec hd
      rcases hfile with hf | hf
      · rw [hf]
        exact hbetween
      · rw [hf]
        exact hbetween.sync
    · rcases hdrop with hd | hd
      · unfold openJournal at h
        rw [hd] at h
        cases h
      · rw [List.append_nil] at htext
        obtain ⟨rfl, rfl⟩ := openJournal_text hnum' hd htext h
        exact ⟨some r, .inr rfl, hnum', rfl, htext, rfl⟩
  · -- what is behind the text has no newline, so it is cut off
    have htorn : newline ∉ part := by
      cases flight with
      | none =>
        rw [List.prefix_nil.1 hpart]
        simp
      | some r =>
        intro hin
        refine hwhole ⟨r, rfl, ?_⟩
        change part <+: codec.stringify r ++ [newline] at hpart
        rcases List.prefix_concat_iff.1 hpart with h | h
        · exact h
        · exact absurd (h.subset hin) (codec.newline_not_mem r)
    have hcut := hbetween.truncate
    have htake : (file.truncate (codec.text rs).length).content = codec.text rs := by
      simp [SyncedFile.truncate, hcontent]
    have hnum' : NumberedFrom 1 (rs ++ (none : Option (Rec φ)).toList) := by simpa using hnum
    refine ⟨?_, fun file' j h => ?_⟩
    · rcases dropTornTail_cases io hcontent htorn with hd | ⟨-, hd⟩ | hd | hd
      · rcases openJournal_file codec hd with hf | hf <;> rw [hf]
        · exact hbetween
        · exact hbetween.sync
      · rcases openJournal_file codec hd with hf | hf <;> rw [hf]
        · exact hbetween
        · exact hbetween.sync
      · rcases openJournal_file codec hd with hf | hf <;> rw [hf]
        · exact hcut
        · exact hcut.sync
      · rcases openJournal_file codec hd with hf | hf <;> rw [hf]
        · exact hcut.sync
        · exact hcut.sync.sync
    · refine ⟨none, .inl rfl, hnum', ?_⟩
      simp only [Option.toList_none, List.append_nil]
      rcases dropTornTail_cases io hcontent htorn with hd | ⟨hnil, hd⟩ | hd | hd
      · unfold openJournal at h
        rw [hd] at h
        cases h
      · rw [hnil, List.append_nil] at hcontent
        obtain ⟨rfl, rfl⟩ := openJournal_text hnum hd hcontent h
        exact ⟨rfl, hcontent, rfl⟩
      · unfold openJournal at h
        rw [hd] at h
        cases h
      · obtain ⟨rfl, rfl⟩ := openJournal_text hnum hd htake h
        exact ⟨rfl, htake, rfl⟩

theorem intact_opens {w w' : JournalWorld φ} {io : OpenIo} (h : Intact codec w)
    (hnext : w.opens codec io = some w') : Intact codec w' := by
  unfold JournalWorld.opens at hnext
  split at hnext
  · cases hnext
  · rename_i hproc
    obtain ⟨hfile, hopen⟩ := openJournal_spec io h.numbered h.flight_seq h.between
    split at hnext
    · rename_i file hio
      obtain rfl := Option.some.inj hnext
      rw [hio] at hfile
      refine ⟨h.numbered, h.flight_seq, hfile, ?_⟩
      rw [hproc]
      exact nofun
    · rename_i file j hio
      obtain ⟨left, hleft, hnum, hearlier, hcontent, rfl⟩ := hopen file j hio
      -- the record left behind is what the committed number tells of
      have hadopt : (if (keptRecords w.history ++ left.toList).length =
          (keptRecords w.history).length then none else w.flight) = left := by
        cases left with
        | none => simp
        | some r => simpa using (hleft.resolve_left (by simp)).symm
      dsimp only at hnext
      rw [hadopt] at hnext
      obtain rfl := Option.some.inj hnext
      have hkept : keptRecords (w.history ++ [.opened left]) =
          keptRecords w.history ++ left.toList := by
        rw [keptRecords_append]
        simp [keptRecords, Happened.kept]
      refine ⟨by rw [hkept]; exact hnum, nofun, ?_, ?_⟩
      · rw [hkept]
        exact SyncedFile.between_of_synced hearlier hcontent
      · rintro j ⟨⟩
        rw [hkept]
        exact ⟨rfl, rfl, .inr ⟨rfl, hearlier, hcontent⟩⟩

/-! ### Appending keeps it -/

theorem intact_append {w w' : JournalWorld φ} {fields : φ} (h : Intact codec w)
    (hnext : w.append fields = some w') : Intact codec w' := by
  unfold JournalWorld.append at hnext
  split at hnext
  · cases hnext
  · rename_i j' hbegin
    obtain ⟨j, hproc, hj⟩ := Option.bind_eq_some_iff.1 hbegin
    obtain ⟨hseq, hoffset, hpc⟩ := h.proc_ok j hproc
    unfold Journal.begin at hj
    split at hj
    · rename_i hbroken hidle
      obtain rfl := Option.some.inj hj
      obtain rfl := Option.some.inj hnext
      unfold PcOk at hpc
      rw [hidle] at hpc
      obtain ⟨hflight, hearlier, hcontent⟩ := hpc.resolve_left (by simp [hbroken])
      refine ⟨h.numbered, ?_, ?_, ?_⟩
      · rintro r ⟨⟩
        exact congrArg (· + 1) hseq
      · exact SyncedFile.between_of_synced hearlier hcontent
      · rintro j ⟨⟩
        exact ⟨hseq, hoffset, hbroken, rfl, by simp, by simpa using hcontent⟩
    · cases hj

/-- What a call made of the world, once what it made of file and journal is known. -/
theorem call_eq {w w' : JournalWorld φ} {io : AppendIo} {j : Journal φ} (hproc : w.proc = some j)
    (hnext : w.call codec io = some w') :
    ∃ file j' ended, j.step codec w.file io = some (file, j', ended) ∧
      w'.file = file ∧ w'.proc = some j' ∧ w'.flight = flightAfter w.flight ended ∧
      w'.history = w.history ++
        match w.flight, ended with
        | some r, some e => e.happened r
        | _, _ => [] := by
  unfold JournalWorld.call at hnext
  rw [hproc] at hnext
  dsimp only at hnext
  split at hnext
  · cases hnext
  · rename_i file j' ended hstep
    obtain rfl := Option.some.inj hnext
    exact ⟨file, j', ended, hstep, rfl, rfl, rfl, rfl⟩

/-- A call that settles nothing leaves the history and the flight; what it has to show is what it
makes of the file. -/
theorem Intact.goesOn {w w' : JournalWorld φ} (h : Intact codec w) {file : SyncedFile}
    {j' : Journal φ} (hfile : w'.file = file) (hproc : w'.proc = some j')
    (hflight : w'.flight = w.flight) (hhistory : w'.history = w.history ++ [])
    (hbetween : file.Between (codec.text (keptRecords w.history)) (flightLine codec w.flight))
    (hj : j'.committedSeq = (keptRecords w.history).length ∧
      j'.committedOffset = (codec.text (keptRecords w.history)).length ∧
      PcOk codec j' w' (codec.text (keptRecords w.history))) : Intact codec w' := by
  rw [List.append_nil] at hhistory
  refine ⟨?_, ?_, ?_, ?_⟩
  · rw [hhistory]
    exact h.numbered
  · rw [hhistory, hflight]
    exact h.flight_seq
  · rw [hhistory, hflight, hfile]
    exact hbetween
  · intro j hj'
    obtain rfl := Option.some.inj (hproc.symm.trans hj')
    rw [hhistory]
    exact hj

theorem intact_call {w w' : JournalWorld φ} {io : AppendIo} (h : Intact codec w)
    (hnext : w.call codec io = some w') : Intact codec w' := by
  cases hproc : w.proc with
  | none =>
    unfold JournalWorld.call at hnext
    rw [hproc] at hnext
    cases hnext
  | some j =>
    obtain ⟨file, j', ended, hstep, hfile, hproc', hflight, hhistory⟩ := call_eq hproc hnext
    obtain ⟨hseq, hoffset, hpc⟩ := h.proc_ok j hproc
    unfold PcOk at hpc
    cases io with
    | wrote n =>
      unfold Journal.step at hstep
      dsimp only at hstep
      split at hstep
      · rename_i r done hwriting
        rw [hwriting] at hpc
        obtain ⟨hbroken, hr, hdone, hcontent⟩ := hpc
        split_ifs at hstep with hn hfull
        -- the bytes written are the next of the line
        all_goals
          obtain ⟨rfl, rfl, rfl⟩ : _ ∧ _ ∧ _ := by simpa using hstep
          have hbytes : (codec.line r).take done ++ ((codec.line r).drop done).take n =
              (codec.line r).take (done + n) := (List.take_add ..).symm
          have hline : flightLine codec w.flight = codec.line r := by rw [hr]; rfl
          have hbetween := h.between.append hcontent (((codec.line r).drop done).take n)
            (by rw [hbytes, hline]; exact List.take_prefix _ _)
          have hcontent' : (w.file.append (((codec.line r).drop done).take n)).content =
              codec.text (keptRecords w.history) ++ (codec.line r).take (done + n) := by
            rw [← hbytes, ← List.append_assoc, ← hcontent]
            rfl
          have hhistory' : w'.history = w.history ++ [] := by simpa [hr] using hhistory
          have hflight' : w'.flight = w.flight := hflight
        · refine h.goesOn hfile hproc' hflight' hhistory' hbetween ⟨hseq, hoffset, ?_⟩
          refine ⟨hbroken, hflight'.trans hr, ?_⟩
          rw [hfile, hcontent', hfull, List.take_length]
        · refine h.goesOn hfile hproc' hflight' hhistory' hbetween ⟨hseq, hoffset, ?_⟩
          refine ⟨hbroken, hflight'.trans hr, by omega, ?_⟩
          rw [hfile, hcontent']
      · cases hstep
    | writeFails =>
      unfold Journal.step at hstep
      dsimp only at hstep
      split at hstep
      · rename_i r done hwriting
        rw [hwriting] at hpc
        obtain ⟨hbroken, hr, -, -⟩ := hpc
        obtain ⟨rfl, rfl, rfl⟩ : _ ∧ _ ∧ _ := by simpa using hstep
        have hhistory' : w'.history = w.history ++ [] := by simpa [hr] using hhistory
        exact h.goesOn hfile hproc' hflight hhistory' h.between
          ⟨hseq, hoffset, hbroken, Eq.trans hflight hr⟩
      · cases hstep
    | sync ok =>
      unfold Journal.step at hstep
      dsimp only at hstep
      split at hstep
      · rename_i r hwritten
        rw [hwritten] at hpc
        obtain ⟨hbroken, hr, hcontent⟩ := hpc
        cases ok with
        | false =>
          obtain ⟨rfl, rfl, rfl⟩ : _ ∧ _ ∧ _ := by simpa using hstep
          have hhistory' : w'.history = w.history ++ [] := by simpa [hr] using hhistory
          exact h.goesOn hfile hproc' hflight hhistory' h.between
            ⟨hseq, hoffset, hbroken, Eq.trans hflight hr⟩
        | true =>
          -- the append returns: its line is now text
          obtain ⟨rfl, rfl, rfl⟩ : _ ∧ _ ∧ _ := by simpa using hstep
          have hhistory' : w'.history = w.history ++ [.acked r] := by
            simpa [hr, AppendEnd.happened] using hhistory
          have hkept : keptRecords w'.history = keptRecords w.history ++ [r] := by
            rw [hhistory', keptRecords_append]
            rfl
          have hrseq := h.flight_seq r hr
          have htext : w'.file.content = codec.text (keptRecords w'.history) := by
            rw [hfile, hkept, text_append, text_cons, text_nil, List.append_nil]
            exact hcontent
          have hearlier : w'.file.earlier = [] := by rw [hfile]; rfl
          have hflight' : w'.flight = none := hflight
          refine ⟨?_, ?_, ?_, ?_⟩
          · rw [hkept]
            exact numberedFrom_append.2 ⟨h.numbered, by rw [hrseq, Nat.add_comm], trivial⟩
          · rw [hflight']
            exact nofun
          · rw [hflight']
            exact SyncedFile.between_of_synced hearlier htext
          · intro j'' hj''
            obtain rfl := Option.some.inj (hproc'.symm.trans hj'')
            refine ⟨?_, ?_, .inr ⟨hflight', hearlier, htext⟩⟩
            · rw [hkept, List.length_append]
              exact hrseq
            · rw [hkept, text_append, text_cons, text_nil, List.append_nil, List.length_append,
                ← hoffset]
      · cases hstep
    | truncate ok =>
      unfold Journal.step at hstep
      dsimp only at hstep
      split at hstep
      · rename_i r hfailed
        rw [hfailed] at hpc
        obtain ⟨hbroken, hr⟩ := hpc
        cases ok with
        | false =>
          obtain ⟨rfl, rfl, rfl⟩ : _ ∧ _ ∧ _ := by simpa using hstep
          have hhistory' : w'.history = w.history ++ [] := by
            simpa [hr, AppendEnd.happened] using hhistory
          exact h.goesOn hfile hproc' hflight hhistory' h.between ⟨hseq, hoffset, .inl rfl⟩
        | true =>
          obtain ⟨rfl, rfl, rfl⟩ : _ ∧ _ ∧ _ := by simpa using hstep
          have hhistory' : w'.history = w.history ++ [] := by simpa [hr] using hhistory
          have hcut := h.between.truncate
          rw [← hoffset] at hcut
          refine h.goesOn hfile hproc' hflight hhistory' hcut
            ⟨hseq, hoffset, hbroken, Eq.trans hflight hr, ?_⟩
          obtain ⟨part, -, hcontent⟩ := h.between.content
          rw [hfile]
          simp [SyncedFile.truncate, hcontent, hoffset]
      · cases hstep
    | syncBack ok =>
      unfold Journal.step at hstep
      dsimp only at hstep
      split at hstep
      · rename_i r htruncated
        rw [htruncated] at hpc
        obtain ⟨hbroken, hr, hcontent⟩ := hpc
        cases ok with
        | false =>
          obtain ⟨rfl, rfl, rfl⟩ : _ ∧ _ ∧ _ := by simpa using hstep
          have hhistory' : w'.history = w.history ++ [] := by
            simpa [hr, AppendEnd.happened] using hhistory
          exact h.goesOn hfile hproc' hflight hhistory' h.between ⟨hseq, hoffset, .inl rfl⟩
        | true =>
          -- the rollback is durable: nothing is in flight any more
          obtain ⟨rfl, rfl, rfl⟩ : _ ∧ _ ∧ _ := by simpa using hstep
          have hhistory' : w'.history = w.history ++ [.rolledBack r] := by
            simpa [hr, AppendEnd.happened] using hhistory
          have hkept : keptRecords w'.history = keptRecords w.history := by
            rw [hhistory', keptRecords_append]
            simp [keptRecords, Happened.kept]
          have htext : w'.file.content = codec.text (keptRecords w'.history) := by
            rw [hfile, hkept]
            exact hcontent
          have hearlier : w'.file.earlier = [] := by rw [hfile]; rfl
          have hflight' : w'.flight = none := hflight
          refine ⟨by rw [hkept]; exact h.numbered, by rw [hflight']; exact nofun, ?_, ?_⟩
          · rw [hflight']
            exact SyncedFile.between_of_synced hearlier htext
          · intro j'' hj''
            obtain rfl := Option.some.inj (hproc'.symm.trans hj'')
            rw [hkept]
            exact ⟨hseq, hoffset, .inr ⟨hflight', hearlier, by rw [htext, hkept]⟩⟩
      · cases hstep

/-! ### Dying keeps it -/

theorem intact_powerLoss {w : JournalWorld φ} {left : Bytes} (h : Intact codec w)
    (hleft : w.file.Survives left) :
    Intact codec { w with file := SyncedFile.restarted left, proc := none } :=
  ⟨h.numbered, h.flight_seq, h.between.restarted hleft, nofun⟩

/-- **The step lemma.** -/
theorem Intact.next {w w' : JournalWorld φ} {m : JournalMove φ} (h : Intact codec w)
    (hnext : w.next codec m = some w') : Intact codec w' := by
  cases m with
  | opens io => exact intact_opens h hnext
  | append fields => exact intact_append h hnext
  | call io => exact intact_call h hnext
  | dies =>
    obtain ⟨j, -, rfl⟩ := Option.map_eq_some_iff.1 hnext
    exact ⟨h.numbered, h.flight_seq, h.between, nofun⟩
  | powerLoss left =>
    unfold JournalWorld.next at hnext
    dsimp only at hnext
    split_ifs at hnext with hleft
    obtain rfl := Option.some.inj hnext
    exact intact_powerLoss h hleft

/-- **Every run keeps the journal intact.** -/
theorem intact_reach {w : JournalWorld φ}
    (h : (journalMachine codec).Reach (fun _ _ => True) w) : Intact codec w :=
  h.invariant (P := Intact codec) (fun _ hs => intact_start hs)
    fun _ _ _ hi _ hnext => hi.next hnext

/-! ### What a process finds in the journal -/

/-- **The committed file is the text of the kept records**, whatever is behind it. -/
theorem Intact.committed {w : JournalWorld φ} (h : Intact codec w) {j : Journal φ}
    (hproc : w.proc = some j) :
    ∃ more, w.file.content = codec.text (keptRecords w.history) ++ more ∧
      j.committedOffset = (codec.text (keptRecords w.history)).length := by
  obtain ⟨-, hoffset, -⟩ := h.proc_ok j hproc
  obtain ⟨part, -, hcontent⟩ := h.between.content
  exact ⟨part, hcontent, hoffset⟩

/-- The rounds of `iterate` yield the records in order. -/
theorem iterateRounds_prefix {content more : Bytes} {maxBytes limit rounds : Nat}
    {before after : List (Rec φ)} {n : Nat} (hnum : NumberedFrom n after)
    (hcontent : content = codec.text (before ++ after) ++ more)
    (hlimit : limit = (codec.text (before ++ after)).length) :
    (iterateRounds codec content maxBytes limit rounds (codec.text before).length).1.map
      Entry.record <+: after := by
  induction rounds generalizing before after n with
  | zero => exact List.nil_prefix
  | succ rounds ih =>
    unfold iterateRounds
    split
    · exact List.nil_prefix
    · rename_i entries hread
      rw [hcontent, hlimit, text_append] at hread
      obtain ⟨rs, ⟨rest, rfl⟩, rfl⟩ := records_of_read hnum hread
      split
      · exact List.nil_prefix
      · rename_i last hlast
        have hfinish : last.finish = (codec.text (before ++ rs)).length := by
          rw [finish_of_getLast? hlast, text_append, List.length_append]
        have hrest := (numberedFrom_append.1 hnum).2
        rw [← List.append_assoc] at hcontent hlimit
        have := ih hrest hcontent hlimit
        rw [hfinish]
        simpa [map_record_entriesOf] using this

/-- **The laws of the journal**, in every state a run reaches in which a process has it open.
The committed numbers are 1 and on without a gap; no reader returns a record behind the
committed offset; the committed file is, incarnation by incarnation, the acknowledged records in
order and after them at most the one record that was left behind whole; readers that start at
a record return these records only; and a record that was rolled back, and that no other append
brought in, is returned by none. -/
theorem journal_keeps_acknowledged {w : JournalWorld φ}
    (h : (journalMachine codec).Reach (fun _ _ => True) w) {j : Journal φ}
    (hproc : w.proc = some j) :
    (keptRecords w.history).map Rec.seq = List.range' 1 j.committedSeq ∧
      (∀ offset maxBytes expectSeq entries,
        j.read codec w.file offset maxBytes expectSeq = .ok entries →
          ∀ e ∈ entries, e.finish ≤ j.committedOffset) ∧
      w.file.content.take j.committedOffset = codec.text (keptRecords w.history) ∧
      (∀ before after, keptRecords w.history = before ++ after →
        (∀ maxBytes expectSeq entries,
          j.read codec w.file (codec.text before).length maxBytes expectSeq = .ok entries →
            entries.map Entry.record <+: after) ∧
        ∀ maxBytes, (j.iterate codec w.file (codec.text before).length maxBytes).1.map
          Entry.record <+: after) ∧
      ∀ r, .rolledBack r ∈ w.history → .acked r ∉ w.history → .opened (some r) ∉ w.history →
        ∀ before after, keptRecords w.history = before ++ after →
          (∀ maxBytes expectSeq entries,
            j.read codec w.file (codec.text before).length maxBytes expectSeq = .ok entries →
              r ∉ entries.map Entry.record) ∧
          ∀ maxBytes, r ∉ (j.iterate codec w.file (codec.text before).length maxBytes).1.map
            Entry.record := by
  have hi := intact_reach h
  obtain ⟨more, hcontent, hoffset⟩ := hi.committed hproc
  have hread : ∀ before after, keptRecords w.history = before ++ after →
      (∀ maxBytes expectSeq entries,
        j.read codec w.file (codec.text before).length maxBytes expectSeq = .ok entries →
          entries.map Entry.record <+: after) ∧
      ∀ maxBytes, (j.iterate codec w.file (codec.text before).length maxBytes).1.map
        Entry.record <+: after := by
    intro before after hkept
    have hnum := (numberedFrom_append.1 (hkept ▸ hi.numbered)).2
    rw [hkept] at hcontent hoffset
    refine ⟨fun maxBytes expectSeq entries hentries => ?_, fun maxBytes => ?_⟩
    · unfold Journal.read at hentries
      rw [hcontent, hoffset, text_append] at hentries
      obtain ⟨rs, hrs, rfl⟩ := records_of_read hnum hentries
      rw [map_record_entriesOf]
      exact hrs
    · exact iterateRounds_prefix hnum hcontent hoffset
  refine ⟨?_, ?_, ?_, hread, ?_⟩
  · rw [numberedFrom_seq hi.numbered, (hi.proc_ok j hproc).1]
  · exact fun _ _ _ _ hentries => finish_le_of_read hentries
  · rw [hcontent, hoffset, List.take_left]
  · intro r _ hacked hopened before after hkept
    -- a kept record was acknowledged or left behind
    have hr : r ∉ after := by
      intro hin
      have hmem : r ∈ keptRecords w.history := by
        rw [hkept]
        exact List.mem_append_right _ hin
      obtain ⟨e, he, hre⟩ := List.mem_flatMap.1 hmem
      cases e with
      | acked q =>
        rw [List.mem_singleton.1 hre] at hacked
        exact hacked he
      | rolledBack q => cases hre
      | opened left =>
        rw [Happened.kept, Option.mem_toList] at hre
        obtain rfl := hre
        exact hopened he
    obtain ⟨hpage, hall⟩ := hread before after hkept
    exact ⟨fun maxBytes expectSeq entries hentries hin => hr ((hpage _ _ _ hentries).subset hin),
      fun maxBytes hin => hr ((hall maxBytes).subset hin)⟩

/-! ### Two incarnations -/

/-- The codec of records without fields. -/
def seqCodec : Codec Unit := jsonCodec (fun _ => []) (fun _ => some ()) (fun _ => rfl) fun _ => nofun

/-- The records that were acknowledged. -/
def ackedRecords (history : List (Happened φ)) : List (Rec φ) :=
  history.flatMap fun e =>
    match e with
    | .acked r => [r]
    | _ => []

/-- A process dies when its line is written and not yet synced; the next takes the record in,
appends another and dies too. -/
def twoIncarnations : List (JournalMove Unit) :=
  [.opens {}, .append (), .call (.wrote 10), .dies,
    .opens {}, .append (), .call (.wrote 10), .call (.sync true), .dies, .opens {}]

/-- The empty journal. -/
def emptyJournal : JournalWorld Unit where
  file := { content := [] }
  proc := none
  flight := none
  history := []

/-- Where `twoIncarnations` leads. -/
def afterTwoIncarnations : JournalWorld Unit where
  file := { content := seqCodec.text [⟨1, ()⟩, ⟨2, ()⟩] }
  proc := some { committedSeq := 2, committedOffset := 20 }
  flight := none
  history := [.opened none, .opened (some ⟨1, ()⟩), .acked ⟨2, ()⟩, .opened none]

theorem reach_twoIncarnations :
    (journalMachine seqCodec).Reach (fun _ _ => True) afterTwoIncarnations := by
  refine Machine.reach_of_exec twoIncarnations (s := emptyJournal) (.start rfl)
    (Machine.along_of_forall (fun _ _ => trivial) _ _) ?_
  decide +kernel

/-- **A record taken in by one process stays before what the next appends**, so that after two
crashes the journal is not the acknowledged records with at most one record behind them. -/
theorem taken_record_precedes_acknowledged :
    (journalMachine seqCodec).Reach (fun _ _ => True) afterTwoIncarnations ∧
      afterTwoIncarnations.history.getLast? = some (.opened none) ∧
      ∀ extra : Option (Rec Unit),
        afterTwoIncarnations.file.content.take 20 ≠
          seqCodec.text (ackedRecords afterTwoIncarnations.history ++ extra.toList) := by
  refine ⟨reach_twoIncarnations, rfl, fun extra h => ?_⟩
  -- the first line of the file is that of a record which was never acknowledged
  have htaken : afterTwoIncarnations.file.content.take 20 =
      seqCodec.line ⟨1, ()⟩ ++ seqCodec.line ⟨2, ()⟩ := by decide +kernel
  have hacked : seqCodec.text (ackedRecords afterTwoIncarnations.history ++ extra.toList) =
      seqCodec.line ⟨2, ()⟩ ++ seqCodec.text extra.toList := text_cons ..
  rw [htaken, hacked] at h
  exact absurd (List.append_inj_left h (by decide +kernel)) (by decide +kernel)

/-- The laws at a journal with a record taken in and one acknowledged. -/
theorem journal_keeps_acknowledged_twoIncarnations :
    (keptRecords afterTwoIncarnations.history).map Rec.seq = List.range' 1 2 :=
  (journal_keeps_acknowledged reach_twoIncarnations (j := ⟨2, 20, false, .idle⟩) rfl).1

end Store
end LaneBroker
