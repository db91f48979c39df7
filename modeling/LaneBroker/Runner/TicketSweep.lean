/-
# The sweep over a runner's tickets

`gcRemoteTickets` (`gc.js`) goes over the ticket directories of a runner under the broker
lock, some of them at a time, and moves to the trash what nobody can still be using: a whole
directory past its retention, or the `work/` of a ticket that has its record.  It keeps a
cursor at the last directory it came to, and goes on behind it the next time; the cursor is
written after the lock is released, when other sweeps may be under way.

| the sweep reads        | and keeps a directory for                        |
|------------------------|--------------------------------------------------|
| `tombstones/<ticket>`  | a tombstone                                      |
| `publisher.json`       | a publisher that is alive                        |
| `remote-id`            | a lease, a queue entry or a marker of that id    |
| the directory's time   | `retentionMs`, unless the ticket has its record  |

What a sweep takes met all of this when it was taken, whether the sweep came to its end or threw
(`lockedSweep_collected`), and a dry run takes nothing.  And what can be taken is taken: however
many sweeps run at once, whatever else happens to the directories and to the trash in the
meantime, only so many cursors are written while a directory that could be taken is left
(`reclaimable_not_left`).
-/

import LaneBroker.Basis.Directory
import LaneBroker.Basis.JsText
import LaneBroker.Basis.Machine
import LaneBroker.Basis.RoundRobin

namespace LaneBroker
namespace Runner
namespace TicketSweep

open LaneBroker.Basis RoundRobin

variable {Text Proc : Type} [LinearOrder Text]

/-! ### What a sweep reads -/

/-- **A directory of `tickets/`**, by what a sweep reads in it. -/
structure TicketFiles (Text Proc : Type) where
  /-- A real directory, not a link. -/
  isDirectory : Bool
  /-- Rounded up to a whole millisecond, which no comparison with whole ones tells. -/
  mtimeMs : ℤ
  /-- `publisher.json`, `none` where it cannot be read. -/
  publisher : Option Proc
  /-- The text of `remote-id`, `none` where it cannot be read or is empty. -/
  remoteId : Option Text
  /-- `tmp-dir` is there; its text, where it can be read and is not empty. -/
  tmpDirFile : Option (Option Text)
  /-- What `result.json` holds, `none` where it cannot be read. -/
  result : Option JsVal
  /-- `work/` is there. -/
  work : Bool

/-- **What stands at a recorded tmp dir.** -/
structure TmpPlace (Text : Type) where
  isAbsolute : Bool
  /-- Its last name begins with `lb-`. -/
  lbName : Bool
  isDirectory : Bool
  /-- Its real path is directly under the real path of `REMOTE_TMP_BASE`. -/
  underTmpBase : Bool
  /-- `TMP_OWNER_FILE` in it is a file. -/
  markerIsFile : Bool
  marker : Option Text

/-- **The records and markers of the runner's broker.**  A list is `none` where one of its records
cannot be read. -/
structure Broker (Text : Type) where
  leases : Option (List Text)
  queue : Option (List Text)
  cancelled : Text → Bool
  withdrawn : Text → Bool
  expired : Text → Bool

/-- **The host**, as a sweep finds it. -/
structure Host (Text Proc : Type) where
  isUuid : Text → Bool
  isSupervisorAlive : Proc → Bool
  broker : Broker Text
  tmpPlace : Text → TmpPlace Text

/-- The arguments of `gcRemoteTickets`; no limit is `none`. -/
structure Options where
  retentionMs : ℤ
  maxTickets : Option ℕ
  maxExamined : Option ℕ
  now : ℤ
  dryRun : Bool

/-- Every id with a lease or a queue entry (`liveIds`); it throws where a record cannot be read. -/
def liveIds (b : Broker Text) : Option (List Text) := do
  let leases ← b.leases
  let queue ← b.queue
  pure (leases ++ queue)

/-- What keeps a directory (`liveReason`). -/
inductive LiveReason
  | publisherAlive
  | leasedOrQueued
  | markerPending
  deriving DecidableEq, Repr

/-- **Why a ticket directory must not be touched**, if there is a reason (`liveReason`). -/
def liveReason (h : Host Text Proc) (live : List Text) (t : TicketFiles Text Proc) :
    Option LiveReason :=
  if t.publisher.any h.isSupervisorAlive then some .publisherAlive
  else
    match t.remoteId with
    | none => none
    | some laneId =>
      if live.contains laneId then some .leasedOrQueued
      else if h.broker.cancelled laneId || h.broker.withdrawn laneId || h.broker.expired laneId then
        some .markerPending
      else none

/-- **The recorded tmp dir of a ticket, where it belongs to it** (`ownedTmpDir`). -/
def ownedTmpDir (h : Host Text Proc) (t : TicketFiles Text Proc) (ticketId : Text) : Option Text :=
  match t.tmpDirFile.join with
  | none => none
  | some recorded =>
    let place := h.tmpPlace recorded
    if !place.isAbsolute || !place.lbName then none
    else if !place.isDirectory then none
    else if !place.underTmpBase then none
    else if !place.markerIsFile then none
    else if place.marker = some ticketId then some recorded
    else none

/-- Does the ticket have its record? (`isTerminal`) -/
def isTerminal (t : TicketFiles Text Proc) : Bool := t.result = some .obj

/-- The directory is past its retention. -/
def expired (o : Options) (t : TicketFiles Text Proc) : Bool := o.retentionMs ≤ o.now - t.mtimeMs

/-- There is something to take in a directory that nothing keeps. -/
def takes (h : Host Text Proc) (o : Options) (name : Text) (t : TicketFiles Text Proc) : Bool :=
  expired o t || (isTerminal t && (t.work || (ownedTmpDir h t name).isSome))

/-! ### The sweep -/

/-- The directories of `tickets/`, each name once. -/
structure Tickets (Text Proc : Type) [DecidableEq Text] where
  dir : Dir Text (TicketFiles Text Proc)
  once : dir.Once

/-- What lies in the trash. -/
inductive Trashed (Text Proc : Type)
  | ticket (name : Text) (t : TicketFiles Text Proc)
  | work (name : Text)

/-- **The files of the runner that a sweep works on.** -/
structure Root (Text Proc : Type) [DecidableEq Text] where
  tickets : Tickets Text Proc
  tombstoned : Text → Bool
  trash : List (Trashed Text Proc)
  /-- The text of `gc-cursor`, `none` where it cannot be read: every name is behind that. -/
  cursor : Option Text

/-- What `gcRemoteTickets` returns. -/
structure Summary where
  tickets : ℕ
  work : ℕ
  examined : ℕ
  skippedLive : ℕ
  tmpSkipped : ℕ
  bounded : Bool
  deriving DecidableEq, Repr

/-- **How far a sweep is.** -/
structure Progress (Text Proc : Type) [DecidableEq Text] where
  root : Root Text Proc
  summary : Summary
  acted : ℕ
  /-- The directories it looked at; of these the source keeps the last (`lastExamined`). -/
  looked : List Text
  doomedTmpDirs : List Text

/-- Which call on a directory throws. -/
inductive Fault
  | lstat
  | mkdirTrash
  | rename
  | rmTmpDirFile
  deriving DecidableEq, Repr

namespace Root

variable (r : Root Text Proc) (name : Text)

/-- The whole directory is renamed into the trash. -/
def trashTicket (t : TicketFiles Text Proc) : Root Text Proc :=
  { r with
    tickets := ⟨r.tickets.dir.unlink name, r.tickets.once.unlink name⟩
    trash := r.trash ++ [.ticket name t] }

/-- The directory has these files now. -/
def putTicket (t : TicketFiles Text Proc) : Root Text Proc :=
  { r with tickets := ⟨r.tickets.dir.write name t, r.tickets.once.write name t⟩ }

/-- `work/` is renamed into the trash, which the time of the directory shows. -/
def trashWork (t : TicketFiles Text Proc) (now : ℤ) : Root Text Proc :=
  { r.putTicket name { t with work := false, mtimeMs := now } with
    trash := r.trash ++ [.work name] }

end Root

/-- The ticket without `tmp-dir`. -/
def TicketFiles.dropTmpDirFile (t : TicketFiles Text Proc) (now : ℤ) : TicketFiles Text Proc :=
  { t with tmpDirFile := none, mtimeMs := if t.tmpDirFile.isSome then now else t.mtimeMs }

namespace Progress

variable (s : Progress Text Proc)

/-- A sweep that has looked at nothing. -/
def start (r : Root Text Proc) : Progress Text Proc := ⟨r, ⟨0, 0, 0, 0, 0, false⟩, 0, [], []⟩

def look (name : Text) : Progress Text Proc :=
  { s with
    summary := { s.summary with examined := s.summary.examined + 1 }
    looked := s.looked ++ [name] }

def skipLive : Progress Text Proc :=
  { s with summary := { s.summary with skippedLive := s.summary.skippedLive + 1 } }

/-- A directory is acted on: it is counted, and its tmp dir is doomed where it owns one. -/
def count (h : Host Text Proc) (o : Options) (name : Text) (t : TicketFiles Text Proc) :
    Progress Text Proc :=
  let tmpDir := if t.tmpDirFile.isSome then ownedTmpDir h t name else none
  { s with
    acted := s.acted + 1
    summary := { s.summary with
      tickets := s.summary.tickets + if expired o t then 1 else 0
      work := s.summary.work + if expired o t then 0 else 1
      tmpSkipped := s.summary.tmpSkipped +
        if t.tmpDirFile.isSome && tmpDir.isNone then 1 else 0 }
    doomedTmpDirs := s.doomedTmpDirs ++ tmpDir.toList }

def bound : Progress Text Proc := { s with summary := { s.summary with bounded := true } }

end Progress

/-- **Moving what is taken to the trash**, up to a call that throws. -/
def moveDoomed (o : Options) (fault : Option Fault) (name : Text) (t : TicketFiles Text Proc)
    (s : Progress Text Proc) : Except (Progress Text Proc) (Progress Text Proc) :=
  if fault = some .mkdirTrash then .error s
  else if expired o t then
    if fault = some .rename then .error s
    else .ok { s with root := s.root.trashTicket name t }
  else if t.work then
    if fault = some .rename then .error s
    else
      let left := { t with work := false, mtimeMs := o.now }
      let s := { s with root := s.root.trashWork name t o.now }
      if fault = some .rmTmpDirFile then .error s
      else .ok { s with root := s.root.putTicket name (left.dropTmpDirFile o.now) }
  else if fault = some .rmTmpDirFile then .error s
  else .ok { s with root := s.root.putTicket name (t.dropTmpDirFile o.now) }

/-- A directory of the loop of `gcRemoteTickets` that `lstat` found. -/
def examineFound (h : Host Text Proc) (o : Options) (fault : Option Fault) (live : List Text)
    (name : Text) (t : TicketFiles Text Proc) (s : Progress Text Proc) :
    Except (Progress Text Proc) (Progress Text Proc) :=
  if !t.isDirectory then .ok s
  else if s.root.tombstoned name then .ok s
  else if (liveReason h live t).isSome then .ok s.skipLive
  else if !takes h o name t then .ok s
  else if o.dryRun then .ok (s.count h o name t)
  else moveDoomed o fault name t (s.count h o name t)

/-- **One directory** of the loop of `gcRemoteTickets`. -/
def examine (h : Host Text Proc) (o : Options) (io : Text → Option Fault) (live : List Text)
    (name : Text) (s : Progress Text Proc) : Except (Progress Text Proc) (Progress Text Proc) :=
  if io name = some .lstat then .error (s.look name)
  else
    match s.root.tickets.dir.read name with
    | none => .ok (s.look name)
    | some t => examineFound h o (io name) live name t (s.look name)

/-- A limit is reached. -/
def atLimit (o : Options) (s : Progress Text Proc) : Bool :=
  o.maxTickets.any (· ≤ s.acted) || o.maxExamined.any (· ≤ s.summary.examined)

/-- **The loop of `gcRemoteTickets`**, up to a limit or a call that throws. -/
def sweepNames (h : Host Text Proc) (o : Options) (io : Text → Option Fault) (live : List Text) :
    List Text → Progress Text Proc → Except (Progress Text Proc) (Progress Text Proc)
  | [], s => .ok s
  | name :: names, s =>
    if atLimit o s then .ok s.bound
    else
      match examine h o io live name s with
      | .error s => .error s
      | .ok s => sweepNames h o io live names s

/-- The ticket directories there are, sorted. -/
def listing (h : Host Text Proc) (r : Root Text Proc) : List Text :=
  ((r.tickets.dir.entries.map Prod.fst).filter h.isUuid).insertionSort (· ≤ ·)

/-- **What `gcRemoteTickets` does under the lock**: where it throws, as far as it came. -/
def lockedSweep (h : Host Text Proc) (o : Options) (io : Text → Option Fault)
    (r : Root Text Proc) : Except (Progress Text Proc) (Progress Text Proc) :=
  let names := turn (listing h r) r.cursor
  match if names = [] then some [] else liveIds h.broker with
  | none => .error (.start r)
  | some live => sweepNames h o io live names (.start r)

/-- The cursor that `gcRemoteTickets` writes once the lock is released; `none` removes it. -/
def cursorAfter (s : Progress Text Proc) : Option Text :=
  if s.summary.bounded then s.looked.getLast? else none

/-- **The runner's files after `gcRemoteTickets`**, but for the trash, which `remove` empties.  A
cursor that cannot be written or removed stays as it was. -/
def gcRemoteTickets (h : Host Text Proc) (o : Options) (io : Text → Option Fault)
    (cursorFails : Bool) (r : Root Text Proc) : Root Text Proc :=
  match lockedSweep h o io r with
  | .error s => s.root
  | .ok s => if o.dryRun || cursorFails then s.root else { s.root with cursor := cursorAfter s }

/-! ### What a sweep takes -/

variable {h : Host Text Proc} {o : Options} {io : Text → Option Fault} {live : List Text}
  {r : Root Text Proc} {s s' : Progress Text Proc} {name : Text} {names : List Text}
  {t : TicketFiles Text Proc}

/-- How far a sweep came, whether it threw or not. -/
def reached : Except (Progress Text Proc) (Progress Text Proc) → Progress Text Proc
  | .ok s => s
  | .error s => s

/-- **What a directory has to meet to be taken.** -/
structure Free (h : Host Text Proc) (o : Options) (live : List Text) (r : Root Text Proc)
    (name : Text) (t : TicketFiles Text Proc) : Prop where
  read : r.tickets.dir.read name = some t
  isDirectory : t.isDirectory = true
  tombstoned : r.tombstoned name = false
  live : liveReason h live t = none
  takes : takes h o name t = true

/-- The counts of a sweep go with what it looked at. -/
structure Counted (s : Progress Text Proc) : Prop where
  examined : s.summary.examined = s.looked.length
  acted : s.acted ≤ s.looked.length

/-- The cursor and the tombstones are left, and so are the directories but for those of `names`. -/
structure Leaves (names : List Text) (r r' : Root Text Proc) : Prop where
  cursor : r'.cursor = r.cursor
  tombstoned : r'.tombstoned = r.tombstoned
  read : ∀ n, n ∉ names → r'.tickets.dir.read n = r.tickets.dir.read n

namespace Leaves

variable {r' r'' : Root Text Proc} {names' : List Text}

theorem refl (names : List Text) (r : Root Text Proc) : Leaves names r r :=
  ⟨rfl, rfl, fun _ _ => rfl⟩

theorem trans (h : Leaves names r r') (h' : Leaves names' r' r'') :
    Leaves (names ++ names') r r'' where
  cursor := h'.cursor.trans h.cursor
  tombstoned := h'.tombstoned.trans h.tombstoned
  read n hn := by
    rw [List.mem_append, not_or] at hn
    exact (h'.read n hn.2).trans (h.read n hn.1)

theorem trashTicket (r : Root Text Proc) (name : Text) (t : TicketFiles Text Proc) :
    Leaves [name] r (r.trashTicket name t) where
  cursor := rfl
  tombstoned := rfl
  read _ hn := Dir.read_unlink_of_ne _ (by simpa using hn)

theorem putTicket (r : Root Text Proc) (name : Text) (t : TicketFiles Text Proc) :
    Leaves [name] r (r.putTicket name t) where
  cursor := rfl
  tombstoned := rfl
  read _ hn := Dir.read_write_of_ne _ _ (by simpa using hn)

theorem trashWork (r : Root Text Proc) (name : Text) (t : TicketFiles Text Proc) (now : ℤ) :
    Leaves [name] r (r.trashWork name t now) where
  cursor := rfl
  tombstoned := rfl
  read _ hn := Dir.read_write_of_ne _ _ (by simpa using hn)

/-- A directory that is left as it is can still be taken. -/
theorem free (hleaves : Leaves names r r') (hfree : Free h o live r name t) (hn : name ∉ names) :
    Free h o live r' name t where
  read := (hleaves.read name hn).trans hfree.read
  isDirectory := hfree.isDirectory
  tombstoned := (congrFun hleaves.tombstoned name).trans hfree.tombstoned
  live := hfree.live
  takes := hfree.takes

theorem free_of (hleaves : Leaves names r r') (hfree : Free h o live r' name t)
    (hn : name ∉ names) : Free h o live r name t where
  read := (hleaves.read name hn).symm.trans hfree.read
  isDirectory := hfree.isDirectory
  tombstoned := (congrFun hleaves.tombstoned name).symm.trans hfree.tombstoned
  live := hfree.live
  takes := hfree.takes

end Leaves

/-- Directories are moved, and nothing else. -/
structure Moves (names : List Text) (s s' : Progress Text Proc) : Prop where
  leaves : Leaves names s.root s'.root
  summary : s'.summary = s.summary
  acted : s'.acted = s.acted
  looked : s'.looked = s.looked
  doomedTmpDirs : s'.doomedTmpDirs = s.doomedTmpDirs

theorem moves_of_leaves {r' : Root Text Proc} (h : Leaves names s.root r') :
    Moves names s { s with root := r' } := ⟨h, rfl, rfl, rfl, rfl⟩

theorem moves_refl (names : List Text) (s : Progress Text Proc) : Moves names s s :=
  ⟨.refl _ _, rfl, rfl, rfl, rfl⟩

theorem moveDoomed_moves (fault : Option Fault) :
    Moves [name] s (reached (moveDoomed o fault name t s)) := by
  unfold moveDoomed
  split_ifs
  · exact moves_refl _ _
  · exact moves_refl _ _
  · exact moves_of_leaves (.trashTicket _ _ _)
  · exact moves_refl _ _
  · exact moves_of_leaves (.trashWork _ _ _ _)
  · refine moves_of_leaves ⟨rfl, rfl, fun n hn => ?_⟩
    exact ((Leaves.putTicket _ _ _).read n hn).trans ((Leaves.trashWork _ _ _ _).read n hn)
  · exact moves_refl _ _
  · exact moves_of_leaves (.putTicket _ _ _)

/-- **What looking at one directory does**, whether it throws or not. -/
structure Examined (h : Host Text Proc) (o : Options) (live : List Text) (name : Text)
    (s s' : Progress Text Proc) : Prop where
  leaves : Leaves [name] s.root s'.root
  looked : s'.looked = s.looked ++ [name]
  examined : s'.summary.examined = s.summary.examined + 1
  bounded : s'.summary.bounded = s.summary.bounded
  acted : s'.acted ≤ s.acted + 1
  /-- Where it does anything, it acts on what it may take, and not in a dry run. -/
  takes : s'.root = s.root ∨ (o.dryRun = false ∧ ∃ t, Free h o live s.root name t)
  owned : ∀ d ∈ s'.doomedTmpDirs, d ∈ s.doomedTmpDirs ∨
    ∃ t, Free h o live s.root name t ∧ ownedTmpDir h t name = some d

/-- A directory that may be taken, once it is counted. -/
theorem examined_count (hfree : Free h o live s.root name t)
    (hmoves : Moves [name] ((s.look name).count h o name t) s')
    (htakes : s'.root = s.root ∨ o.dryRun = false) : Examined h o live name s s' where
  leaves := hmoves.leaves
  looked := hmoves.looked
  examined := by rw [hmoves.summary]; rfl
  bounded := by rw [hmoves.summary]; rfl
  acted := hmoves.acted.le
  takes := htakes.imp_right fun hdry => ⟨hdry, t, hfree⟩
  owned d hd := by
    rw [hmoves.doomedTmpDirs] at hd
    obtain hd | hd := List.mem_append.1 hd
    · exact .inl hd
    · refine .inr ⟨t, hfree, ?_⟩
      split_ifs at hd
      · simpa using hd
      · simp at hd

theorem examineFound_spec (fault : Option Fault) (hread : s.root.tickets.dir.read name = some t) :
    Examined h o live name s (reached (examineFound h o fault live name t (s.look name))) := by
  have hidle : Examined h o live name s (s.look name) :=
    ⟨.refl _ _, rfl, rfl, rfl, Nat.le_succ _, .inl rfl, fun d hd => .inl hd⟩
  unfold examineFound
  split_ifs with hdir htomb hlive htakes hdry
  · exact hidle
  · exact hidle
  · exact ⟨.refl _ _, rfl, rfl, rfl, Nat.le_succ _, .inl rfl, fun d hd => .inl hd⟩
  · exact hidle
  all_goals
    have hfree : Free h o live s.root name t :=
      ⟨hread, by simpa using hdir, by simpa [Progress.look] using htomb, by simpa using hlive,
        by simpa using htakes⟩
  · exact examined_count hfree (moves_refl _ _) (.inl rfl)
  · exact examined_count hfree (moveDoomed_moves fault) (.inr (by simpa using hdry))

theorem examine_spec (io : Text → Option Fault) :
    Examined h o live name s (reached (examine h o io live name s)) := by
  have hidle : Examined h o live name s (s.look name) :=
    ⟨.refl _ _, rfl, rfl, rfl, Nat.le_succ _, .inl rfl, fun d hd => .inl hd⟩
  unfold examine
  split_ifs
  · exact hidle
  · split
    · exact hidle
    · exact examineFound_spec _ ‹_›

/-- **A directory that may be taken is taken**, where nothing throws. -/
theorem read_ne_of_examine (hfree : Free h o live s.root name t) (hdry : o.dryRun = false)
    (hok : examine h o io live name s = .ok s') : s'.root.tickets.dir.read name ≠ some t := by
  have hmove : moveDoomed o (io name) name t ((s.look name).count h o name t) = .ok s' := by
    unfold examine at hok
    split_ifs at hok
    rw [hfree.read] at hok
    simpa [examineFound, hfree.isDirectory, show (s.look name).root.tombstoned name = false from
      hfree.tombstoned, hfree.live, hfree.takes, hdry] using hok
  intro hread
  unfold moveDoomed at hmove
  split_ifs at hmove with hmk hexp hren hwork hren hrm hrm
  · cases hmove
    simp [Root.trashTicket] at hread
  · cases hmove
    have hleft : some _ = some t := (Dir.read_write_self _ _ _).symm.trans hread
    rw [← congrArg TicketFiles.work (Option.some.inj hleft)] at hwork
    cases hwork
  · cases hmove
    have hleft : some _ = some t := (Dir.read_write_self _ _ _).symm.trans hread
    have hnone : t.tmpDirFile = none :=
      (congrArg TicketFiles.tmpDirFile (Option.some.inj hleft)).symm
    have htakes := hfree.takes
    simp [takes, ownedTmpDir, hexp, hwork, hnone] at htakes

/-- A tmp dir that is owned says so. -/
theorem marker_of_ownedTmpDir {d : Text} (hown : ownedTmpDir h t name = some d) :
    (h.tmpPlace d).marker = some name := by
  unfold ownedTmpDir at hown
  split at hown
  · cases hown
  · simp only at hown
    split_ifs at hown with _ _ _ _ hmarker
    cases hown
    exact hmarker

/-! ### The loop -/

/-- **What a sweep does**, as far as it came, whether it threw or not. -/
structure Swept (h : Host Text Proc) (o : Options) (live names : List Text)
    (s s' : Progress Text Proc) : Prop where
  leaves : Leaves names s.root s'.root
  looked : ∃ done, done <+: names ∧ s'.looked = s.looked ++ done
  counted : Counted s → Counted s'
  takes : ∀ n, s'.root.tickets.dir.read n = s.root.tickets.dir.read n ∨
    (o.dryRun = false ∧ n ∈ names ∧ ∃ t, Free h o live s.root n t)
  owned : ∀ d ∈ s'.doomedTmpDirs, d ∈ s.doomedTmpDirs ∨
    ∃ n ∈ names, ∃ t, Free h o live s.root n t ∧ ownedTmpDir h t n = some d

theorem Examined.counted (hex : Examined h o live name s s') (hs : Counted s) : Counted s' where
  examined := by rw [hex.examined, hex.looked, hs.examined, List.length_append]; rfl
  acted := by
    rw [hex.looked, List.length_append]
    exact hex.acted.trans (Nat.add_le_add_right hs.acted 1)

/-- A sweep that goes on after one directory. -/
theorem Examined.swept {s'' : Progress Text Proc} (hex : Examined h o live name s s')
    (hrest : Swept h o live names s' s'') (hname : name ∉ names) :
    Swept h o live (name :: names) s s'' where
  leaves := hex.leaves.trans hrest.leaves
  looked := by
    obtain ⟨done, hdone, hlooked⟩ := hrest.looked
    refine ⟨name :: done, List.cons_prefix_cons.2 ⟨rfl, hdone⟩, ?_⟩
    rw [hlooked, hex.looked, List.append_assoc]
    rfl
  counted hs := hrest.counted (hex.counted hs)
  takes n := by
    by_cases hn : n = name
    · subst hn
      rw [hrest.leaves.read n hname]
      refine hex.takes.imp (fun hroot => by rw [hroot]) fun ⟨hdry, hfree⟩ => ?_
      exact ⟨hdry, List.mem_cons_self .., hfree⟩
    · have hread := hex.leaves.read n (by simpa using hn)
      obtain hsame | ⟨hdry, hmem, t, hfree⟩ := hrest.takes n
      · exact .inl (hsame.trans hread)
      · exact .inr ⟨hdry, List.mem_cons_of_mem _ hmem, t,
          hex.leaves.free_of hfree (by simpa using hn)⟩
  owned d hd := by
    obtain hd | ⟨n, hn, t, hfree, hown⟩ := hrest.owned d hd
    · refine (hex.owned d hd).imp_right fun ⟨t, hfree, hown⟩ => ?_
      exact ⟨name, List.mem_cons_self .., t, hfree, hown⟩
    · have hne : n ∉ [name] := fun hmem => hname (List.mem_singleton.1 hmem ▸ hn)
      exact .inr ⟨n, List.mem_cons_of_mem _ hn, t, hex.leaves.free_of hfree hne, hown⟩

theorem swept_refl (names : List Text) (s : Progress Text Proc) : Swept h o live names s s where
  leaves := .refl _ _
  looked := ⟨[], List.nil_prefix, (List.append_nil _).symm⟩
  counted := id
  takes _ := .inl rfl
  owned _ hd := .inl hd

theorem sweepNames_spec (hnames : names.Nodup) :
    Swept h o live names s (reached (sweepNames h o io live names s)) := by
  induction names generalizing s with
  | nil => exact swept_refl [] s
  | cons name names ih =>
    obtain ⟨hname, hnames⟩ := List.nodup_cons.1 hnames
    rw [sweepNames]
    split_ifs
    · exact ⟨.refl _ _, ⟨[], List.nil_prefix, (List.append_nil _).symm⟩,
        fun hs => ⟨hs.examined, hs.acted⟩, fun _ => .inl rfl, fun _ hd => .inl hd⟩
    · have hex : Examined h o live name s (reached (examine h o io live name s)) := examine_spec io
      cases hr : examine h o io live name s with
      | error s' =>
        rw [hr] at hex
        exact hex.swept (swept_refl _ _) hname
      | ok s' =>
        rw [hr] at hex
        exact hex.swept (ih hnames) hname

/-- **A sweep that comes to its end**: it looked at everything, or it reached a limit; and what it
looked at and might take, it took. -/
theorem sweepNames_ok (hnames : names.Nodup) (hdry : o.dryRun = false)
    (hok : sweepNames h o io live names s = .ok s') :
    (s'.looked = s.looked ++ names ∧ s'.summary.bounded = s.summary.bounded ∨
      s'.summary.bounded = true ∧ atLimit o s' = true) ∧
    ∀ n t, n ∈ names → Free h o live s.root n t → s'.root.tickets.dir.read n = some t →
      ∃ done rest, names = done ++ rest ∧ s'.looked = s.looked ++ done ∧ n ∈ rest := by
  induction names generalizing s with
  | nil =>
    cases hok
    exact ⟨.inl ⟨(List.append_nil _).symm, rfl⟩, fun n t hn => absurd hn (List.not_mem_nil)⟩
  | cons name names ih =>
    obtain ⟨hname, hnames⟩ := List.nodup_cons.1 hnames
    rw [sweepNames] at hok
    split_ifs at hok with hlimit
    · cases hok
      refine ⟨.inr ⟨rfl, hlimit⟩, fun n t hn _ _ => ⟨[], name :: names, rfl, ?_, hn⟩⟩
      exact (List.append_nil _).symm
    cases hr : examine h o io live name s with
    | error s₁ => simp [hr] at hok
    | ok s₁ =>
      simp only [hr] at hok
      have hex : Examined h o live name s s₁ := by
        have hreached : Examined h o live name s (reached (examine h o io live name s)) :=
          examine_spec io
        rwa [hr] at hreached
      obtain ⟨hend, htaken⟩ := ih hnames hok
      constructor
      · refine hend.imp_left fun ⟨hlooked, hbounded⟩ => ?_
        refine ⟨?_, hbounded.trans hex.bounded⟩
        rw [hlooked, hex.looked, List.append_assoc]
        rfl
      · intro n t hn hfree hread
        have hrest : Swept h o live names s₁ s' := by
          have hreached : Swept h o live names s₁ (reached (sweepNames h o io live names s₁)) :=
            sweepNames_spec hnames
          rwa [hok] at hreached
        by_cases hne : n = name
        · subst hne
          rw [hrest.leaves.read n hname] at hread
          exact absurd hread (read_ne_of_examine hfree hdry hr)
        · have hmem := (List.mem_cons.1 hn).resolve_left hne
          have hfree₁ := hex.leaves.free hfree (by simpa using hne)
          obtain ⟨done, rest, hsplit, hlooked, hin⟩ := htaken n t hmem hfree₁ hread
          refine ⟨name :: done, rest, by rw [hsplit]; rfl, ?_, hin⟩
          rw [hlooked, hex.looked, List.append_assoc]
          rfl

/-! ### The sweep under the lock -/

theorem listing_sorted (h : Host Text Proc) (r : Root Text Proc) :
    (listing h r).Pairwise (· < ·) := by
  have hsorted : (listing h r).Pairwise (· ≤ ·) := List.pairwise_insertionSort _ _
  have hnodup : (listing h r).Nodup :=
    (List.perm_insertionSort _ _).nodup_iff.2 (r.tickets.once.filter _)
  refine (hsorted.and (List.nodup_iff_pairwise_ne.1 hnodup)).imp fun {a b} hab => ?_
  exact lt_of_le_of_ne hab.1 hab.2

theorem turn_nodup (h : Host Text Proc) (r : Root Text Proc) :
    (turn (listing h r) r.cursor).Nodup :=
  (turn_perm _ _).nodup_iff.2 ((listing_sorted h r).imp fun hab => ne_of_lt hab)

theorem mem_listing {n : Text} : n ∈ listing h r ↔
    h.isUuid n = true ∧ ∃ t, (n, t) ∈ r.tickets.dir.entries := by
  rw [listing, List.mem_insertionSort, List.mem_filter, List.mem_map, and_comm]
  simp

/-- A directory is taken where nothing keeps it, by the broker's records of the time. -/
structure Reclaimable (h : Host Text Proc) (o : Options) (r : Root Text Proc) (name : Text)
    (t : TicketFiles Text Proc) : Prop where
  isUuid : h.isUuid name = true
  free : ∃ live, liveIds h.broker = some live ∧ Free h o live r name t

theorem Reclaimable.mem_listing (hr : Reclaimable h o r name t) : name ∈ listing h r := by
  obtain ⟨live, -, hfree⟩ := hr.free
  exact TicketSweep.mem_listing.2 ⟨hr.isUuid, t, Dir.mem_of_read hfree.read⟩

/-- What `lockedSweep` comes to. -/
theorem lockedSweep_cases (h : Host Text Proc) (o : Options) (io : Text → Option Fault)
    (r : Root Text Proc) :
    (listing h r = [] ∧ lockedSweep h o io r = .ok (.start r)) ∨
    (liveIds h.broker = none ∧ lockedSweep h o io r = .error (.start r)) ∨
    ∃ live, liveIds h.broker = some live ∧
      lockedSweep h o io r = sweepNames h o io live (turn (listing h r) r.cursor) (.start r) := by
  unfold lockedSweep
  by_cases hnil : turn (listing h r) r.cursor = []
  · have hlist : listing h r = [] := by
      have hlen := length_turn (listing h r) r.cursor
      rw [hnil] at hlen
      exact List.eq_nil_of_length_eq_zero hlen.symm
    exact .inl ⟨hlist, by simp [hnil, sweepNames]⟩
  · cases hlive : liveIds h.broker with
    | none => exact .inr (.inl ⟨rfl, by simp [hnil]⟩)
    | some live => exact .inr (.inr ⟨live, rfl, by simp [hnil]⟩)

/-- **What a sweep may have done to a runner's files**, whether it came to its end or threw: a
directory that has changed could be taken. -/
structure Collected (h : Host Text Proc) (o : Options) (r : Root Text Proc)
    (s : Progress Text Proc) : Prop where
  cursor : s.root.cursor = r.cursor
  tombstoned : s.root.tombstoned = r.tombstoned
  counted : Counted s
  looked : s.looked <+: turn (listing h r) r.cursor
  read : ∀ n, s.root.tickets.dir.read n = r.tickets.dir.read n ∨
    (o.dryRun = false ∧ ∃ t, Reclaimable h o r n t)
  /-- A tmp dir that is to be deleted names the directory it was recorded in. -/
  owned : ∀ d ∈ s.doomedTmpDirs, ∃ n t, Reclaimable h o r n t ∧ ownedTmpDir h t n = some d

theorem collected_start (h : Host Text Proc) (o : Options) (r : Root Text Proc) :
    Collected h o r (.start r) :=
  ⟨rfl, rfl, ⟨rfl, le_rfl⟩, List.nil_prefix, fun _ => .inl rfl,
    fun _ hd => absurd hd List.not_mem_nil⟩

theorem lockedSweep_collected (h : Host Text Proc) (o : Options) (io : Text → Option Fault)
    (r : Root Text Proc) : Collected h o r (reached (lockedSweep h o io r)) := by
  obtain ⟨-, heq⟩ | ⟨-, heq⟩ | ⟨live, hlive, heq⟩ := lockedSweep_cases h o io r
  · rw [heq]
    exact collected_start h o r
  · rw [heq]
    exact collected_start h o r
  · rw [heq]
    have hswept : Swept h o live (turn (listing h r) r.cursor) (.start r)
        (reached (sweepNames h o io live (turn (listing h r) r.cursor) (.start r))) :=
      sweepNames_spec (turn_nodup h r)
    have hreclaim {n : Text} (hn : n ∈ turn (listing h r) r.cursor) {t : TicketFiles Text Proc}
        (hfree : Free h o live r n t) : Reclaimable h o r n t :=
      ⟨(mem_listing.1 (mem_turn.1 hn)).1, live, hlive, hfree⟩
    have hlooked : (reached (sweepNames h o io live (turn (listing h r) r.cursor)
        (.start r))).looked <+: turn (listing h r) r.cursor := by
      obtain ⟨done, hdone, hlooked⟩ := hswept.looked
      rwa [hlooked]
    refine ⟨hswept.leaves.cursor, hswept.leaves.tombstoned, hswept.counted ⟨rfl, le_rfl⟩, hlooked,
      fun n => ?_, fun d hd => ?_⟩
    · refine (hswept.takes n).imp_right fun ⟨hdry, hn, t, hfree⟩ => ⟨hdry, t, hreclaim hn hfree⟩
    · obtain hd | ⟨n, hn, t, hfree, hown⟩ := hswept.owned d hd
      · exact absurd hd List.not_mem_nil
      · exact ⟨n, t, hreclaim hn hfree, hown⟩

/-- **Nobody uses the directory**, by its publisher and by the records and markers of the broker. -/
structure Unused (h : Host Text Proc) (t : TicketFiles Text Proc) : Prop where
  publisher : t.publisher.any h.isSupervisorAlive = false
  remoteId : ∀ laneId, t.remoteId = some laneId → ∃ leases queue,
    h.broker.leases = some leases ∧ h.broker.queue = some queue ∧ laneId ∉ leases ∧
      laneId ∉ queue ∧ h.broker.cancelled laneId = false ∧ h.broker.withdrawn laneId = false ∧
        h.broker.expired laneId = false

theorem unused_of_liveReason (hlive : liveIds h.broker = some live)
    (hnone : liveReason h live t = none) : Unused h t := by
  unfold liveReason at hnone
  split_ifs at hnone with hpublisher
  refine ⟨by simpa using hpublisher, fun laneId hid => ?_⟩
  simp only [hid] at hnone
  split_ifs at hnone with hin hmarked
  obtain ⟨leases, hleases, hrest⟩ := Option.bind_eq_some_iff.1 hlive
  obtain ⟨queue, hqueue, happend⟩ := Option.bind_eq_some_iff.1 hrest
  obtain rfl := Option.some.inj happend
  simp only [Bool.or_eq_true, not_or, Bool.not_eq_true] at hmarked
  simp only [List.contains_eq_mem, List.mem_append, decide_eq_true_eq, not_or] at hin
  exact ⟨leases, queue, hleases, hqueue, hin.1, hin.2, hmarked.1.1, hmarked.1.2, hmarked.2⟩

theorem gcRemoteTickets_eq (cursorFails : Bool) : ∃ cursor,
    gcRemoteTickets h o io cursorFails r =
      { (reached (lockedSweep h o io r)).root with cursor := cursor } ∧
    (cursor = r.cursor ∨ o.dryRun = false ∧ ∀ n ∈ cursor, n ∈ listing h r) := by
  have hcollected := lockedSweep_collected h o io r
  unfold gcRemoteTickets
  cases hend : lockedSweep h o io r with
  | error s => exact ⟨s.root.cursor, rfl, .inl (hend ▸ hcollected).cursor⟩
  | ok s =>
    rw [hend] at hcollected
    simp only
    split_ifs with hkept
    · exact ⟨s.root.cursor, rfl, .inl hcollected.cursor⟩
    · refine ⟨cursorAfter s, rfl, .inr ⟨by simp_all, fun n hn => ?_⟩⟩
      unfold cursorAfter at hn
      split_ifs at hn
      · exact mem_turn.1 (hcollected.looked.subset (List.mem_of_getLast? hn))
      · cases hn

/-- **What a sweep spares.**  Whatever it is asked and wherever it throws: it leaves the tombstones,
a dry run leaves the cursor and every directory as they are, the cursor goes nowhere but to a
directory that was listed, and a directory that it changes, or whose tmp dir it is going to delete, is
a ticket without a tombstone that nobody uses, and past its retention or with its record; and the
tmp dir is marked as that ticket's own. -/
theorem sweep_spares (h : Host Text Proc) (o : Options) (io : Text → Option Fault)
    (cursorFails : Bool) (r : Root Text Proc) :
    let after := gcRemoteTickets h o io cursorFails r
    let spent (n : Text) (t : TicketFiles Text Proc) : Prop :=
      h.isUuid n = true ∧ t.isDirectory = true ∧ r.tombstoned n = false ∧ Unused h t ∧
        (expired o t = true ∨ isTerminal t = true)
    after.tombstoned = r.tombstoned ∧
    (after.cursor = r.cursor ∨ o.dryRun = false ∧ ∀ n ∈ after.cursor, n ∈ listing h r) ∧
    (∀ n, after.tickets.dir.read n ≠ r.tickets.dir.read n →
      o.dryRun = false ∧ ∃ t, r.tickets.dir.read n = some t ∧ spent n t) ∧
    ∀ d ∈ (reached (lockedSweep h o io r)).doomedTmpDirs,
      ∃ n t, r.tickets.dir.read n = some t ∧ spent n t ∧ (h.tmpPlace d).marker = some n := by
  intro after spent
  have hspent {n : Text} {t : TicketFiles Text Proc} (hr : Reclaimable h o r n t) :
      r.tickets.dir.read n = some t ∧ spent n t := by
    obtain ⟨live, hlive, hfree⟩ := hr.free
    have htakes := hfree.takes
    simp only [takes, Bool.or_eq_true, Bool.and_eq_true] at htakes
    exact ⟨hfree.read, hr.isUuid, hfree.isDirectory, hfree.tombstoned,
      unused_of_liveReason hlive hfree.live, htakes.imp_right And.left⟩
  have hcollected := lockedSweep_collected h o io r
  obtain ⟨cursor, hafter, hcursor⟩ : ∃ cursor,
      after = { (reached (lockedSweep h o io r)).root with cursor } ∧
        (cursor = r.cursor ∨ o.dryRun = false ∧ ∀ n ∈ cursor, n ∈ listing h r) :=
    gcRemoteTickets_eq cursorFails
  rw [hafter]
  refine ⟨hcollected.tombstoned, hcursor, fun n hn => ?_, fun d hd => ?_⟩
  · obtain hsame | ⟨hdry, t, hr⟩ := hcollected.read n
    · exact absurd hsame hn
    · exact ⟨hdry, t, hspent hr⟩
  · obtain ⟨n, t, hr, hown⟩ := hcollected.owned d hd
    exact ⟨n, t, (hspent hr).1, (hspent hr).2, marker_of_ownedTmpDir hown⟩

/-- **A sweep that leaves a directory it might have taken** has stopped before it, at a limit. -/
theorem left_of_lockedSweep {e : ℕ} (hr : Reclaimable h o r name t) (hdry : o.dryRun = false)
    (hlimits : ∀ k, o.maxTickets = some k ∨ o.maxExamined = some k → e ≤ k)
    (hok : lockedSweep h o io r = .ok s) (hleft : s.root.tickets.dir.read name = some t) :
    s.looked <+: turn (listing h r) r.cursor ∧ name ∉ s.looked ∧ e ≤ s.looked.length ∧
      cursorAfter s = s.looked.getLast? := by
  obtain ⟨live, hlive, hfree⟩ := hr.free
  obtain ⟨hnil, -⟩ | ⟨hnone, -⟩ | ⟨live', hlive', heq⟩ := lockedSweep_cases h o io r
  · exact absurd hr.mem_listing (hnil ▸ List.not_mem_nil)
  · rw [hnone] at hlive
    cases hlive
  obtain rfl : live = live' := Option.some.inj (hlive.symm.trans hlive')
  have hnames := turn_nodup h r
  rw [heq] at hok
  obtain ⟨hend, htaken⟩ := sweepNames_ok hnames hdry hok
  obtain ⟨done, rest, hsplit, hlooked, hin⟩ :=
    htaken name t (mem_turn.2 hr.mem_listing) hfree hleft
  have hlooked : s.looked = done := hlooked
  have hnot : name ∉ s.looked := by
    rw [hsplit] at hnames
    rw [hlooked]
    exact fun hmem => (List.nodup_append.1 hnames).2.2 name hmem name hin rfl
  obtain ⟨hall, -⟩ | ⟨hbounded, hlimit⟩ := hend
  · have hall : s.looked = turn (listing h r) r.cursor := hall
    exact absurd (hall ▸ mem_turn.2 hr.mem_listing) hnot
  have hcounted := (lockedSweep_collected h o io r).counted
  rw [heq, hok] at hcounted
  refine ⟨⟨rest, by rw [hlooked, hsplit]⟩, hnot, ?_, by simp [cursorAfter, hbounded]⟩
  rw [atLimit, Bool.or_eq_true] at hlimit
  obtain hlimit | hlimit := hlimit
  · obtain ⟨k, hk, hle⟩ := (Option.any_eq_true _ _).1 hlimit
    exact (hlimits k (.inl hk)).trans ((by simpa using hle : k ≤ s.acted).trans hcounted.acted)
  · obtain ⟨k, hk, hle⟩ := (Option.any_eq_true _ _).1 hlimit
    have hle : k ≤ s.summary.examined := by simpa using hle
    exact (hlimits k (.inr hk)).trans (hle.trans hcounted.examined.le)

/-! ### Sweeps beside each other -/

/-- **The runner's files and the sweeps that are under way**, by the cursors they will write. -/
structure Yard (Text Proc : Type) [DecidableEq Text] where
  root : Root Text Proc
  late : List (Option Text)

/-- What happens on the runner. -/
inductive Act (Text Proc : Type) [DecidableEq Text]
  /-- a sweep takes the lock, goes its way and releases it -/
  | sweep (h : Host Text Proc) (o : Options) (io : Text → Option Fault)
  /-- a sweep writes its cursor -/
  | record (k : ℕ)
  /-- a sweep ends without: its write fails, or its process is killed -/
  | leave (k : ℕ)
  /-- anything that happens to the tickets, the tombstones and the trash -/
  | elsewhere (tickets : Tickets Text Proc) (tombstoned : Text → Bool)
    (trash : List (Trashed Text Proc))

/-- **The next state.** -/
def Yard.next (y : Yard Text Proc) : Act Text Proc → Option (Yard Text Proc)
  | .sweep h o io =>
    match lockedSweep h o io y.root with
    | .error s => some { y with root := s.root }
    | .ok s => some ⟨s.root, if o.dryRun then y.late else cursorAfter s :: y.late⟩
  | .record k => y.late[k]?.map fun c => ⟨{ y.root with cursor := c }, y.late.eraseIdx k⟩
  | .leave k => y.late[k]?.map fun _ => { y with late := y.late.eraseIdx k }
  | .elsewhere tickets tombstoned trash =>
    some { y with root := ⟨tickets, tombstoned, trash, y.root.cursor⟩ }

/-- **The runner's sweeps as a machine.** -/
def sweeps (Text Proc : Type) [LinearOrder Text] : Machine (Yard Text Proc) (Act Text Proc) where
  start y := y.late = []
  next := Yard.next

/-! ### What can be taken is taken -/

variable {y y' : Yard Text Proc} {n : Text} {U : Finset Text} {e m : ℕ}

/-- The step writes a cursor. -/
def Act.isRecord : Act Text Proc → Bool
  | .record _ => true
  | _ => false

/-- **A directory is left that could be taken.**  Every sweep finds it so, and leaves it as it is;
the names that are listed are among `U`, the limits are `e` or more, and there are fewer than `m`
sweeps under way when one begins. -/
def Spares (U : Finset Text) (e m : ℕ) (n : Text) (y : Yard Text Proc) : Act Text Proc → Prop
  | .sweep h o io =>
    y.late.length < m ∧ (∀ u ∈ listing h y.root, u ∈ U) ∧
    (∀ k, o.maxTickets = some k ∨ o.maxExamined = some k → e ≤ k) ∧
    ∃ t, Reclaimable h o y.root n t ∧
      (reached (lockedSweep h o io y.root)).root.tickets.dir.read n = some t
  | _ => True

/-- How many sweeps of `e` directories a cursor is away from `n`. -/
def away (U : Finset Text) (e : ℕ) (n : Text) (c : Option Text) : ℕ := ((ahead U c n).card - 1) / e

def Yard.marks (U : Finset Text) (e : ℕ) (n : Text) (y : Yard Text Proc) : Marks :=
  ⟨away U e n y.root.cursor, y.late.map (away U e n)⟩

/-- **A sweep that leaves a directory it could take will bring the cursor nearer to it.** -/
theorem away_lt (he : 0 < e) (hU : ∀ u ∈ listing h r, u ∈ U) (hr : Reclaimable h o r n t)
    (hdry : o.dryRun = false)
    (hlimits : ∀ k, o.maxTickets = some k ∨ o.maxExamined = some k → e ≤ k)
    (hok : lockedSweep h o io r = .ok s) (hleft : s.root.tickets.dir.read n = some t) :
    away U e n (cursorAfter s) < away U e n r.cursor := by
  obtain ⟨hpre, hnot, hlen, hcursor⟩ := left_of_lockedSweep hr hdry hlimits hok hleft
  obtain ⟨c, hc⟩ : ∃ c, s.looked.getLast? = some c := by
    rw [← Option.isSome_iff_exists, List.getLast?_isSome]
    rintro hnil
    rw [hnil] at hlen
    exact absurd hlen (not_le.2 he)
  have hcard := card_ahead_add_length_le (listing_sorted h r) hU hr.mem_listing hpre hc hnot
  have hpos := card_ahead_pos (some c) (hU n hr.mem_listing)
  have hle : (ahead U (some c) n).card - 1 + e ≤ (ahead U r.cursor n).card - 1 := by omega
  rw [hcursor, hc, away, away, Nat.lt_iff_add_one_le, ← Nat.add_div_right _ he]
  exact Nat.div_le_div_right hle

theorem perm_eraseIdx {β : Type} {xs : List β} {k : ℕ} {c : β} (h : xs[k]? = some c) (f : β → ℕ) :
    (xs.map f).Perm (f c :: (xs.eraseIdx k).map f) := by
  obtain ⟨hk, rfl⟩ := List.getElem?_eq_some_iff.1 h
  exact ((List.getElem_cons_eraseIdx_perm hk).map f).symm

/-- **One step**, seen from the directory that is left: nothing happens to the cursor, or it is
moved as a late mark is. -/
theorem step_marks {a : Act Text Proc} (he : 0 < e) (hspares : Spares U e m n y a)
    (hnext : y.next a = some y') : (y'.late.length ≤ m ∨ y'.late.length ≤ y.late.length) ∧
      (y'.marks U e n = y.marks U e n ∧ a.isRecord = false ∨
        Marks.Step (y.marks U e n) a.isRecord (y'.marks U e n)) := by
  cases a with
  | sweep h o io =>
    obtain ⟨hm, hU, hlimits, t, hr, hleft⟩ := hspares
    have hcollected := lockedSweep_collected h o io y.root
    rw [Yard.next] at hnext
    cases hres : lockedSweep h o io y.root with
    | error s =>
      rw [hres] at hcollected hnext
      cases hnext
      have hcursor : s.root.cursor = y.root.cursor := hcollected.cursor
      exact ⟨.inr le_rfl, .inl ⟨by simp [Yard.marks, hcursor], rfl⟩⟩
    | ok s =>
      rw [hres] at hcollected hnext hleft
      cases hnext
      have hcursor : s.root.cursor = y.root.cursor := hcollected.cursor
      cases hdry : o.dryRun with
      | true => exact ⟨.inr (by simp), .inl ⟨by simp [Yard.marks, hcursor], rfl⟩⟩
      | false =>
        have hlt := away_lt he hU hr hdry hlimits hres hleft
        refine ⟨.inl (by simpa using hm), .inr ?_⟩
        have hstep := Marks.Step.begin (s := y.marks U e n) hlt
        simpa [Yard.marks, hcursor, Act.isRecord] using hstep
  | record k =>
    obtain ⟨c, hc, rfl⟩ := Option.map_eq_some_iff.1 hnext
    exact ⟨.inr ((List.eraseIdx_sublist _ _).length_le), .inr (.move (perm_eraseIdx hc _))⟩
  | leave k =>
    obtain ⟨c, hc, rfl⟩ := Option.map_eq_some_iff.1 hnext
    exact ⟨.inr ((List.eraseIdx_sublist _ _).length_le), .inr (.go (perm_eraseIdx hc _))⟩
  | elsewhere tickets tombstoned trash =>
    cases hnext
    exact ⟨.inr le_rfl, .inl ⟨rfl, rfl⟩⟩

/-- **A run**: every cursor that is written is paid for. -/
theorem records_add_stock_le (he : 0 < e) (as : List (Act Text Proc)) (hm : y.late.length ≤ m)
    (hspares : (sweeps Text Proc).Along (Spares U e m n) y as)
    (hrun : (sweeps Text Proc).exec y as = some y') :
    as.countP Act.isRecord + (y'.marks U e n).stock m ≤ (y.marks U e n).stock m := by
  induction as generalizing y with
  | nil =>
    cases hrun
    simp
  | cons a as ih =>
    obtain ⟨z, hz, hrun⟩ := Option.bind_eq_some_iff.1 hrun
    obtain ⟨hlen, hstep⟩ := step_marks he hspares.1 hz
    have hmz : z.late.length ≤ m := hlen.elim id fun hle => hle.trans hm
    have hrest := ih hmz (hspares.2 z hz) hrun
    have hpaid : (z.marks U e n).stock m + a.isRecord.toNat ≤ (y.marks U e n).stock m := by
      obtain ⟨hsame, hno⟩ | hstep := hstep
      · rw [hsame, hno]
        exact le_rfl
      · exact hstep.stock_le (by simpa [Yard.marks] using hm) (by simpa [Yard.marks] using hmz)
    rw [List.countP_cons]
    cases hrec : a.isRecord <;> simp_all <;> omega

/-- **Few cursors are written while something could be taken.**  However the sweeps of a runner overlap, at most `m`
of them at once and each with limits of `e` directories or more, whatever sweeps throw, are killed
or fail to write their cursor, and whatever else happens to the runner's files in the meantime:
while a directory that could be taken is left, and all that are ever listed are among `U`, no more
cursors are written than `m + m ^ 2 + ⋯ + m ^ ((U.card - 1) / e)`; with one sweep at a time, than
`(U.card - 1) / e`. -/
theorem reclaimable_not_left (he : 0 < e) (as : List (Act Text Proc))
    (hstart : (sweeps Text Proc).start y)
    (hspares : (sweeps Text Proc).Along (Spares U e m n) y as)
    (hrun : (sweeps Text Proc).exec y as = some y') :
    as.countP Act.isRecord ≤ ∑ i ∈ Finset.range ((U.card - 1) / e), m ^ (i + 1) := by
  have hnil : y.late = [] := hstart
  have hpaid := records_add_stock_le he as (by simp [hnil]) hspares hrun
  have haway : away U e n y.root.cursor ≤ (U.card - 1) / e :=
    Nat.div_le_div_right (Nat.sub_le_sub_right (card_ahead_le U _ n) 1)
  calc as.countP Act.isRecord
      ≤ (y.marks U e n).stock m := by omega
    _ = m * Marks.moves m (away U e n y.root.cursor) := by simp [Marks.stock, Yard.marks, hnil]
    _ ≤ m * Marks.moves m ((U.card - 1) / e) := Nat.mul_le_mul_left m (Marks.moves_mono m haway)
    _ = ∑ i ∈ Finset.range ((U.card - 1) / e), m ^ (i + 1) := Marks.mul_moves m _

/-- A directory past its retention, of a ticket that has no record. -/
def abandoned : TicketFiles ℕ Unit := ⟨true, 0, none, none, none, none, true⟩

/-- A host on which nothing is alive. -/
def idleHost : Host ℕ Unit where
  isUuid _ := true
  isSupervisorAlive _ := false
  broker := ⟨some [], some [], fun _ => false, fun _ => false, fun _ => false⟩
  tmpPlace _ := ⟨false, false, false, false, false, none⟩

def threeAbandoned : Yard ℕ Unit where
  root :=
    { tickets := ⟨⟨[(1, abandoned), (2, abandoned), (3, abandoned)]⟩, by simp [Dir.Once]⟩
      tombstoned := fun _ => false
      trash := []
      cursor := none }
  late := []

def oneAtATime : Act ℕ Unit := .sweep idleHost ⟨10, some 1, none, 20, false⟩ fun _ => none


def twoSweeps : List (Act ℕ Unit) := [oneAtATime, .record 0, oneAtATime, .record 0]

theorem spares_oneAtATime {y : Yard ℕ Unit} (hlate : y.late = [])
    (hlist : ∀ u ∈ listing idleHost y.root, u ∈ ({1, 2, 3} : Finset ℕ))
    (hread : y.root.tickets.dir.read 3 = some abandoned) (htomb : y.root.tombstoned 3 = false)
    (hleft : (reached (lockedSweep idleHost ⟨10, some 1, none, 20, false⟩ (fun _ => none)
      y.root)).root.tickets.dir.read 3 = some abandoned) :
    Spares {1, 2, 3} 1 1 3 y oneAtATime := by
  refine ⟨by simp [hlate], hlist, fun k hk => ?_, abandoned, ⟨rfl, [], rfl, ?_⟩, hleft⟩
  · obtain hk | hk := hk
    · cases hk
      exact le_rfl
    · cases hk
  · exact ⟨hread, rfl, htomb, rfl, rfl⟩

/-- The bound is met: of three directories that could be taken, two sweeps take the other two. -/
theorem reclaimable_not_left_abandoned :
    ∃ y', (sweeps ℕ Unit).exec threeAbandoned twoSweeps = some y' ∧
    twoSweeps.countP Act.isRecord = 2 ∧
    2 ≤ ∑ i ∈ Finset.range ((({1, 2, 3} : Finset ℕ).card - 1) / 1), 1 ^ (i + 1) := by
  refine ⟨_, rfl, rfl, ?_⟩
  refine reclaimable_not_left (y := threeAbandoned) (n := 3) (by decide) twoSweeps rfl ?_ rfl
  refine ⟨spares_oneAtATime rfl (by decide) rfl rfl rfl, ?_⟩
  rintro _ ⟨⟩
  refine ⟨trivial, ?_⟩
  rintro _ ⟨⟩
  refine ⟨spares_oneAtATime rfl (by decide) rfl rfl rfl, ?_⟩
  rintro _ ⟨⟩
  refine ⟨trivial, ?_⟩
  rintro _ ⟨⟩
  trivial

end TicketSweep
end Runner
end LaneBroker
