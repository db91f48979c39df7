/-
# Who is signalled for a lease

`DescendantTracker` of `descendants.js` with its leader, over its whole life: a supervisor's tracker
scans one process table after another, what it has recorded goes into the lease, and another process
builds a tracker of its own from that (`Reached`).  A pid with its start token is one process.
What a scan adds is the least set with the marked rows and the children of live members
(`mem_scan_iff`), and by it a process is a member of the tree after the scans that there were
(`MemberAfter`).

No signal goes to a process that was never a member, whatever became of the pids meanwhile, and
none goes twice to one process in the course of one reap (`tracker_signals_members`).
-/

import LaneBroker.Leases.OrphanReap

namespace LaneBroker
namespace Leases

open LaneBroker.Basis DescendantTracker

/-! ### The tracker and its reap -/

/-- **A tracker** with the leader's pid, and the leader's token once a table has shown it. -/
structure LeaseTracker extends DescendantTracker where
  rootPid : Option ℤ
  rootToken : Token := none

namespace LeaseTracker

variable (T : LeaseTracker) (t : Table)

/-- `new DescendantTracker(rootPid)`. -/
def fresh (rootPid : ℤ) (protectedPids : List ℤ) : LeaseTracker where
  protectedPids := protectedPids
  recorded := .empty
  rootPid := some rootPid

/-- `trackerForLease`, from what another tracker has recorded. -/
def rebuilt (protectedPids : List ℤ) (snapshot : Recorded) : LeaseTracker where
  toDescendantTracker := fromSnapshot protectedPids snapshot
  rootPid := none

/-- `rootToken`, after a look at the table. -/
def learned : Token :=
  if T.rootToken = none then (T.rootPid.bind t.tokenOf).join else T.rootToken

/-- The leader, while it has its token. -/
def rootStack : List ℤ :=
  match T.rootPid with
  | none => []
  | some root => if T.learned t ≠ none ∧ t.tokenOf root = some (T.learned t) then [root] else []

/-- The walk after the marked rows. -/
def begunAt : Walk :=
  Walk.start t T.protectedPids T.recorded (T.toDescendantTracker.roots t ++ T.rootStack t)

/-- **`scan`**, of a table that could be read. -/
def scanTable : LeaseTracker :=
  let w := T.begunAt t
  { T with
    rootToken := T.learned t
    recorded := (Walk.run t T.protectedPids (w.stack.length + t.rows.length) w).recorded }

/-- **A signal that is sent**: by what tracker, over what table, to what pid. -/
structure Sent where
  signal : Signal
  tracker : LeaseTracker
  table : Table
  pid : ℤ

/-- `sweep`: the tracker after it, the signals sent, the keys that have had the signal, and the live
members where the table could be read. -/
def sweep (signal : Signal) (T : LeaseTracker) (sent : List Key) (rows : Option Table) :
    LeaseTracker × List Sent × List Key × Option (List ℤ) :=
  match rows with
  | none => (T, [], sent, none)
  | some t =>
    let T' := T.scanTable t
    let (pids, sent) := T'.signalLive t sent
    (T', pids.map fun pid => { signal, tracker := T', table := t, pid }, sent, some (T'.live t))

/-- `run`, with what is read until the deadline has passed. -/
def runSignal (signal : Signal) (T : LeaseTracker) (sent : List Key) :
    List (Option Table) → LeaseTracker × List Sent × Option (List ℤ)
  | [] => (T, [], none)
  | rows :: rest =>
    let (T, log, sent, live) := sweep signal T sent rows
    if live = some [] ∨ rest = [] then (T, log, live)
    else
      let (T, log', live) := runSignal signal T sent rest
      (T, log ++ log', live)

/-- **`reap`**: its result, and the signals that are sent. -/
def reap (T : LeaseTracker) (terms kills : List (Option Table)) : ReapResult × List Sent :=
  let (T, log, last) := runSignal .sigterm T [] terms
  let (_, log, last) :=
    if last = some [] then (T, log, last)
    else
      let (T, log', last) := runSignal .sigkill T [] kills
      (T, log ++ log', last)
  let survivors := last.getD []
  ({ signalled := (log.map Sent.pid).dedup.length
     survivors
     complete := last = some [] }, log)

end LeaseTracker

/-! ### The tree of a lease -/

/-- **What a table adds to a tree**: the marked rows, and the children of live members and of what
is added, the protected processes left out. -/
inductive Joins (t : Table) (protectedPids : List ℤ) (live : Row → Prop) : Row → Prop
  | marked {r : Row} : r ∈ t.rows → r.pid ∉ protectedPids → r.marked = true →
      Joins t protectedPids live r
  | childOfLive {parent r : Row} : parent ∈ t.rows → live parent → r ∈ t.rows →
      r.pid ∉ protectedPids → r.ppid = parent.pid → Joins t protectedPids live r
  | child {parent r : Row} : Joins t protectedPids live parent → r ∈ t.rows →
      r.pid ∉ protectedPids → r.ppid = parent.pid → Joins t protectedPids live r

/-- The scans so far, the last one first: the table, and the pids that were left out. -/
abbrev Scans := List (Table × List ℤ)

/-- **The leader's token**: what the first table shows in which its row can be read. -/
def leaderToken (leader : ℤ) : Scans → Token
  | [] => none
  | (t, _) :: earlier =>
    if leaderToken leader earlier = none then (t.tokenOf leader).join
    else leaderToken leader earlier

/-- **A process was a member of the lease's tree** at one of the scans: it was added there, to the
tree of the leader and of those that were members before. -/
def MemberAfter (leader : ℤ) : Scans → ℤ × Token → Prop
  | [], _ => False
  | (t, protectedPids) :: earlier, process =>
    MemberAfter leader earlier process ∨
      ∃ r, process = (r.pid, r.token) ∧ Joins t protectedPids (fun parent =>
        MemberAfter leader earlier (parent.pid, parent.token) ∨
          parent.pid = leader ∧ parent.token ≠ none ∧
            parent.token = leaderToken leader ((t, protectedPids) :: earlier)) r

/-- **A tracker of a lease**, and the scans behind it: those of the leader's supervisor, or those up
to a snapshot and then its own. -/
inductive Reached (leader : ℤ) : LeaseTracker → Scans → Prop
  | fresh (protectedPids : List ℤ) : Reached leader (.fresh leader protectedPids) []
  | scan {T : LeaseTracker} {scans : Scans} (t : Table) : Reached leader T scans →
      Reached leader (T.scanTable t) ((t, T.protectedPids) :: scans)
  | rebuilt {T : LeaseTracker} {scans : Scans} (protectedPids : List ℤ) : Reached leader T scans →
      Reached leader (.rebuilt protectedPids T.recorded) scans

/-- **A signal to a pid is right**: the table shows a process under it that could be read and was a
member of the tree, and neither is it protected nor is the pid no process of its own. -/
def Rightly (leader : ℤ) (scans : Scans) (protectedPids : List ℤ) (t : Table) (pid : ℤ) : Prop :=
  1 < pid ∧ pid ∉ protectedPids ∧
    ∃ r ∈ t.rows, r.pid = pid ∧ r.unknown = false ∧ MemberAfter leader scans (pid, r.token)

/-- The live members of a tracker as it comes to a table. -/
def LeaseTracker.LiveAt (T : LeaseTracker) (t : Table) (r : Row) : Prop :=
  (r.pid, r.token) ∈ T.recorded.entries ∨
    T.rootPid = some r.pid ∧ r.token ≠ none ∧ r.token = T.learned t

/-! ### What a scan adds -/

section Scan

variable {T : LeaseTracker} {t : Table}

theorem tokenOf_of_mem {r : Row} (h : r ∈ t.rows) : t.tokenOf r.pid = some r.token := by
  rw [Table.tokenOf, Table.rowOf_eq_some_iff.2 ⟨h, rfl⟩, Option.map_some]

theorem exists_row_of_tokenOf {pid : ℤ} {token : Token} (h : t.tokenOf pid = some token) :
    ∃ r ∈ t.rows, r.pid = pid ∧ r.token = token := by
  obtain ⟨r, hr, htoken⟩ := Option.map_eq_some_iff.1 h
  obtain ⟨hmem, hpid⟩ := Table.rowOf_eq_some_iff.1 hr
  exact ⟨r, hmem, hpid, htoken⟩

/-- **The walk starts from the live members.** -/
theorem mem_start_iff {pid : ℤ} : pid ∈ T.toDescendantTracker.roots t ++ T.rootStack t ↔
    ∃ r ∈ t.rows, r.pid = pid ∧ T.LiveAt t r := by
  rw [List.mem_append, DescendantTracker.roots, List.mem_reverse, List.mem_map]
  constructor
  · rintro (⟨⟨pid, token⟩, he, rfl⟩ | hroot)
    · obtain ⟨hrec, htoken⟩ := List.mem_filter.1 he
      obtain ⟨r, hr, hpid, rfl⟩ := exists_row_of_tokenOf (of_decide_eq_true htoken)
      exact ⟨r, hr, hpid, .inl (hpid ▸ hrec)⟩
    · unfold LeaseTracker.rootStack at hroot
      cases hpid : T.rootPid with
      | none =>
        rw [hpid] at hroot
        cases hroot
      | some root =>
        rw [hpid] at hroot
        simp only at hroot
        split_ifs at hroot with hlive
        · obtain rfl := List.mem_singleton.1 hroot
          obtain ⟨r, hr, rfl, htoken⟩ := exists_row_of_tokenOf hlive.2
          exact ⟨r, hr, rfl, .inr ⟨hpid, htoken ▸ hlive.1, htoken⟩⟩
        · cases hroot
  · rintro ⟨r, hr, rfl, hrec | ⟨hroot, hread, htoken⟩⟩
    · refine .inl ⟨(r.pid, r.token), List.mem_filter.2 ⟨hrec, ?_⟩, rfl⟩
      exact decide_eq_true (tokenOf_of_mem hr)
    · right
      have hlive : T.learned t ≠ none ∧ t.tokenOf r.pid = some (T.learned t) :=
        ⟨htoken ▸ hread, htoken ▸ tokenOf_of_mem hr⟩
      rw [LeaseTracker.rootStack, hroot]
      simp only
      rw [if_pos hlive]
      exact List.mem_singleton_self _

/-- A row is a member after the scan. -/
def Member (T : LeaseTracker) (t : Table) : Row → Prop := Joins t T.protectedPids (T.LiveAt t)

/-- **What a walk keeps**: it goes on from members, and records nothing but members. -/
structure Walk.OfMembers (T : LeaseTracker) (t : Table) (w : Walk) : Prop where
  stack : ∀ pid ∈ w.stack, ∃ r ∈ t.rows, r.pid = pid ∧ (T.LiveAt t r ∨ Member T t r)
  recorded : ∀ e ∈ w.recorded.entries, e ∈ T.recorded.entries ∨
    ∃ r, Member T t r ∧ e = (r.pid, r.token)

theorem Joins.mem {protectedPids : List ℤ} {live : Row → Prop} {r : Row}
    (h : Joins t protectedPids live r) : r ∈ t.rows ∧ r.pid ∉ protectedPids := by
  cases h with
  | marked hr hprot | childOfLive _ _ hr hprot | child _ hr hprot => exact ⟨hr, hprot⟩

theorem Walk.OfMembers.admitRow {w : Walk} {r : Row} (h : w.OfMembers T t) (hr : Member T t r) :
    (w.admitRow r).OfMembers T t := by
  refine ⟨fun pid hpid => ?_, fun e he => ?_⟩
  · have hcase : pid = r.pid ∨ pid ∈ w.stack := by
      by_cases hseen : r.pid ∈ w.seen
      · exact .inr (by simpa [Walk.admitRow, hseen] using hpid)
      · simpa [Walk.admitRow, hseen] using hpid
    rcases hcase with rfl | hpid
    · exact ⟨r, hr.mem.1, rfl, .inr hr⟩
    · exact h.stack pid hpid
  · rcases OrderedMap.mem_set_iff.1 he with rfl | ⟨hold, -⟩
    · exact .inr ⟨r, hr, rfl⟩
    · exact h.recorded e hold

/-- Rows that are members, or are passed over. -/
theorem Walk.OfMembers.foldl {f : Walk → Row → Walk} {rows : List Row} {w : Walk}
    (h : w.OfMembers T t)
    (hf : ∀ w, ∀ r ∈ rows, f w r = w ∨ Member T t r ∧ f w r = w.admitRow r) :
    (rows.foldl f w).OfMembers T t := by
  induction rows generalizing w with
  | nil => exact h
  | cons r rows ih =>
    refine ih ?_ fun w r hr => hf w r (List.mem_cons_of_mem _ hr)
    rcases hf w r List.mem_cons_self with hsame | ⟨hmember, hadd⟩
    · rw [hsame]
      exact h
    · rw [hadd]
      exact h.admitRow hmember

theorem Walk.OfMembers.run {fuel : ℕ} {w : Walk} (h : w.OfMembers T t) :
    (Walk.run t T.protectedPids fuel w).OfMembers T t := by
  induction fuel generalizing w with
  | zero => exact h
  | succ fuel ih =>
    rw [Walk.run]
    cases hstack : w.stack with
    | nil => exact h
    | cons pid stack =>
      have hpop : ({ w with stack := stack } : Walk).OfMembers T t :=
        ⟨fun pid hpid => h.stack pid (hstack ▸ List.mem_cons_of_mem _ hpid), h.recorded⟩
      obtain ⟨parent, hparent, rfl, hmember⟩ := h.stack pid (hstack ▸ List.mem_cons_self)
      refine ih (hpop.foldl fun w r hr => (visit_eq T.protectedPids w r).imp_right ?_)
      rintro ⟨hprot, hadd⟩
      obtain ⟨hr, hppid⟩ := List.mem_filter.1 hr
      have hppid : r.ppid = parent.pid := of_decide_eq_true hppid
      refine ⟨?_, hadd⟩
      rcases hmember with hlive | hmember
      · exact .childOfLive hparent hlive hr hprot hppid
      · exact .child hmember hr hprot hppid

/-- **Only members are recorded.** -/
theorem scanTable_ofMembers (T : LeaseTracker) (t : Table) :
    ∀ e ∈ (T.scanTable t).recorded.entries, e ∈ T.recorded.entries ∨
      ∃ r, Member T t r ∧ e = (r.pid, r.token) := by
  have hroots : (⟨T.recorded, T.toDescendantTracker.roots t ++ T.rootStack t,
      T.toDescendantTracker.roots t ++ T.rootStack t⟩ : Walk).OfMembers T t := by
    refine ⟨fun pid hpid => ?_, fun e he => .inl he⟩
    obtain ⟨r, hr, hrpid, hlive⟩ := mem_start_iff.1 hpid
    exact ⟨r, hr, hrpid, .inl hlive⟩
  refine (Walk.OfMembers.run (hroots.foldl fun w r hr => .inr ⟨?_, rfl⟩)).recorded
  obtain ⟨hr, hmarked⟩ := List.mem_filter.1 hr
  obtain ⟨hmarked, hprot⟩ := of_decide_eq_true hmarked
  exact .marked hr hprot hmarked

/-- **Every member is recorded**, under the token of its row. -/
theorem Member.recorded {r : Row} (h : Member T t r) :
    (r.pid, r.token) ∈ (T.scanTable t).recorded.entries := by
  obtain ⟨hgrows, hmarked⟩ := start_records t T.protectedPids T.recorded
    (T.toDescendantTracker.roots t ++ T.rootStack t)
  obtain ⟨hkeeps, hdone⟩ := walk_done t T.protectedPids T.recorded
    (T.toDescendantTracker.roots t ++ T.rootStack t) rfl rfl
  suffices hall : r.pid ∈ (Walk.run t T.protectedPids
      ((T.begunAt t).stack.length + t.rows.length) (T.begunAt t)).seen ∧
      (r.pid, r.token) ∈ (T.scanTable t).recorded.entries from hall.2
  induction h with
  | @marked r hr hprot hmark =>
    obtain ⟨hseen, hrec⟩ := hmarked r hr hprot hmark
    exact ⟨hkeeps.seen _ hseen, hkeeps.rows r hr hrec⟩
  | @childOfLive parent r hparent hlive hr hprot hppid =>
    have hroot := mem_start_iff.2 ⟨parent, hparent, rfl, hlive⟩
    exact hdone r hr hprot (hppid ▸ hkeeps.seen _ (hgrows.seen _ hroot))
  | child _ hr hprot hppid ih => exact hdone _ hr hprot (hppid ▸ ih.1)

/-- **What a scan adds is just the members**: each under the token of its row, in place of what was
recorded of its pid. -/
theorem mem_scan_iff (T : LeaseTracker) (t : Table) (e : ℤ × Token) :
    e ∈ (T.scanTable t).recorded.entries ↔
      (∃ r, Member T t r ∧ e = (r.pid, r.token)) ∨
        e ∈ T.recorded.entries ∧ ∀ r, Member T t r → r.pid ≠ e.1 := by
  constructor
  · intro he
    by_cases hmember : ∃ r, Member T t r ∧ r.pid = e.1
    · obtain ⟨r, hr, hpid⟩ := hmember
      refine .inl ⟨r, hr, Prod.ext hpid.symm (OrderedMap.eq_of_mem ?_ hr.recorded)⟩
      rwa [hpid]
    · have hnone : ∀ r, Member T t r → r.pid ≠ e.1 := fun r hr hpid => hmember ⟨r, hr, hpid⟩
      rcases scanTable_ofMembers T t e he with hold | ⟨r, hr, rfl⟩
      · exact .inr ⟨hold, hnone⟩
      · exact absurd rfl (hnone r hr)
  · rintro (⟨r, hr, rfl⟩ | ⟨hold, hnone⟩)
    · exact hr.recorded
    · obtain ⟨hkeeps, -⟩ := walk_done t T.protectedPids T.recorded
        (T.toDescendantTracker.roots t ++ T.rootStack t) rfl rfl
      obtain ⟨hgrows, -⟩ := start_records t T.protectedPids T.recorded
        (T.toDescendantTracker.roots t ++ T.rootStack t)
      obtain ⟨token, hrec, -⟩ := (hgrows.toKeeps.trans hkeeps).pids e.1 e.2 hold
      have hrec : (e.1, token) ∈ (T.scanTable t).recorded.entries := hrec
      rcases scanTable_ofMembers T t _ hrec with hbefore | ⟨r, hr, heq⟩
      · obtain rfl := OrderedMap.eq_of_mem (b := e.2) hold hbefore
        exact hrec
      · exact absurd (Prod.mk.inj heq).1.symm (hnone r hr)

end Scan

/-! ### Trackers over their lives -/

section Life

variable {leader : ℤ} {T : LeaseTracker} {scans : Scans} {t : Table}

theorem Joins.mono {protectedPids : List ℤ} {live live' : Row → Prop}
    (hlive : ∀ r, live r → live' r) {r : Row} (h : Joins t protectedPids live r) :
    Joins t protectedPids live' r := by
  induction h with
  | marked hr hprot hmark => exact .marked hr hprot hmark
  | childOfLive hparent hmember hr hprot hppid =>
    exact .childOfLive hparent (hlive _ hmember) hr hprot hppid
  | child _ hr hprot hppid ih => exact .child ih hr hprot hppid

/-- **What holds of a tracker**: it has recorded members only, and the leader it walks from is the
leader. -/
structure LeaseTracker.Inv (leader : ℤ) (T : LeaseTracker) (scans : Scans) : Prop where
  members : ∀ e ∈ T.recorded.entries, MemberAfter leader scans e
  root : T.rootPid = none ∨ T.rootPid = some leader ∧ T.rootToken = leaderToken leader scans

theorem learned_eq (hroot : T.rootPid = some leader) (htoken : T.rootToken = leaderToken leader scans)
    (protectedPids : List ℤ) :
    T.learned t = leaderToken leader ((t, protectedPids) :: scans) := by
  rw [LeaseTracker.learned, leaderToken, hroot, htoken]
  rfl

theorem LeaseTracker.Inv.scan (h : T.Inv leader scans) (t : Table) :
    (T.scanTable t).Inv leader ((t, T.protectedPids) :: scans) := by
  refine ⟨fun e he => ?_, h.root.imp_right fun ⟨hroot, htoken⟩ => ⟨hroot, ?_⟩⟩
  · rcases scanTable_ofMembers T t e he with hold | ⟨r, hr, rfl⟩
    · exact .inl (h.members e hold)
    · refine .inr ⟨r, rfl, hr.mono fun parent hlive => ?_⟩
      rcases hlive with hrec | ⟨hpid, hread, htoken⟩
      · exact .inl (h.members _ hrec)
      · rcases h.root with hnone | ⟨hroot, hknown⟩
        · rw [hnone] at hpid
          cases hpid
        · rw [hroot] at hpid
          exact .inr ⟨(Option.some.inj hpid).symm, hread,
            htoken.trans (learned_eq hroot hknown T.protectedPids)⟩
  · exact learned_eq hroot htoken T.protectedPids

theorem inv_of_reached (h : Reached leader T scans) : T.Inv leader scans := by
  induction h with
  | fresh protectedPids => exact ⟨fun e he => (nomatch he), .inr ⟨rfl, rfl⟩⟩
  | scan t _ ih => exact ih.scan t
  | rebuilt protectedPids _ ih =>
    exact ⟨fun e he => ih.members e (mem_fromSnapshot_iff.1 he).1, .inl rfl⟩

/-! ### Signals -/

/-- **What a live member is sent**, and what keys are kept: of members that are no pid not to be
signalled and could be read, each with its token, and none twice. -/
theorem signalAll_keys (tracker : DescendantTracker) (t : Table) (pids : List ℤ)
    (done : List ℤ × List Key) : ∃ keys : List Key,
      pids.foldl (tracker.signalOne t) done = (done.1 ++ keys.map Prod.fst, done.2 ++ keys) ∧
        (∀ k ∈ keys, k.1 ∈ pids ∧ 1 < k.1 ∧ k.1 ∉ (t.rows.filter Row.unknown).map Row.pid ∧
          k.2 = (tracker.recorded.get k.1).join) ∧
        (done.2.Nodup → (done.2 ++ keys).Nodup) := by
  induction pids generalizing done with
  | nil => exact ⟨[], by simp, fun k hk => (nomatch hk), fun h => by simpa using h⟩
  | cons pid pids ih =>
    rw [List.foldl_cons]
    by_cases hskip : ¬ 1 < pid ∨ pid ∈ (t.rows.filter Row.unknown).map Row.pid ∨
        (pid, (tracker.recorded.get pid).join) ∈ done.2
    · have hsame : tracker.signalOne t done pid = done := if_pos hskip
      obtain ⟨keys, hkeys, hall, hnodup⟩ := ih done
      rw [hsame]
      exact ⟨keys, hkeys, fun k hk => ⟨List.mem_cons_of_mem _ (hall k hk).1, (hall k hk).2⟩, hnodup⟩
    · have hsent : tracker.signalOne t done pid =
          (done.1 ++ [pid], done.2 ++ [(pid, (tracker.recorded.get pid).join)]) := if_neg hskip
      rw [not_or, not_or, not_not] at hskip
      obtain ⟨hlow, hread, hfresh⟩ := hskip
      obtain ⟨keys, hkeys, hall, hnodup⟩ :=
        ih (done.1 ++ [pid], done.2 ++ [(pid, (tracker.recorded.get pid).join)])
      rw [hsent]
      refine ⟨(pid, (tracker.recorded.get pid).join) :: keys, by rw [hkeys]; simp, ?_, ?_⟩
      · refine List.forall_mem_cons.2 ⟨⟨List.mem_cons_self, hlow, hread, rfl⟩, fun k hk => ?_⟩
        exact ⟨List.mem_cons_of_mem _ (hall k hk).1, (hall k hk).2⟩
      · intro hdone
        have hmore := hnodup (List.nodup_append.2 ⟨hdone, List.nodup_singleton _, fun a ha b hb => ?_⟩)
        · rwa [List.append_assoc, List.singleton_append] at hmore
        · rintro rfl
          exact hfresh (List.mem_singleton.1 hb ▸ ha)

/-- A key goes to the process that the table shows under its pid. -/
theorem key_of_live {tracker : DescendantTracker} {k : Key} (hlive : k.1 ∈ tracker.live t)
    (hread : k.1 ∉ (t.rows.filter Row.unknown).map Row.pid)
    (hkey : k.2 = (tracker.recorded.get k.1).join) :
    k.1 ∉ tracker.protectedPids ∧ k ∈ tracker.recorded.entries ∧
      ∃ r ∈ t.rows, r.pid = k.1 ∧ r.unknown = false ∧ r.token = k.2 := by
  obtain ⟨hprot, token, hrec, r, hr, hpid, halive⟩ := mem_live_iff.1 hlive
  have hknown : r.unknown = false := by
    rw [Bool.eq_false_iff]
    exact fun hunknown => hread (hpid ▸ List.mem_map_of_mem (List.mem_filter.2 ⟨hr, hunknown⟩))
  rw [OrderedMap.get_eq_some_iff.2 hrec] at hkey
  have htoken : r.token = k.2 := by
    rw [hkey]
    exact halive.resolve_right (by rw [hknown]; exact Bool.false_ne_true)
  refine ⟨hprot, ?_, r, hr, hpid, hknown, htoken⟩
  have heq : k = (k.1, token) := Prod.ext rfl hkey
  rwa [heq]

/-- **What `signalLive` sends**: for each key that it adds one signal, rightly, and no key that was
there before. -/
theorem signalLive_rightly (h : T.Inv leader scans) (t : Table) (sent : List Key) :
    ∃ keys : List Key, T.signalLive t sent = (keys.map Prod.fst, sent ++ keys) ∧
      (∀ k ∈ keys, Rightly leader scans T.protectedPids t k.1 ∧ (t.tokenOf k.1).join = k.2) ∧
      (sent.Nodup → (sent ++ keys).Nodup) := by
  obtain ⟨keys, hkeys, hall, hnodup⟩ :=
    signalAll_keys T.toDescendantTracker t (T.live t) ([], sent)
  refine ⟨keys, hkeys, fun k hk => ?_, hnodup⟩
  obtain ⟨hlive, hlow, hread, hkey⟩ := hall k hk
  obtain ⟨hprot, hrec, r, hr, hpid, hknown, htoken⟩ := key_of_live hlive hread hkey
  refine ⟨⟨hlow, hprot, r, hr, hpid, hknown, ?_⟩, ?_⟩
  · rw [htoken]
    exact h.members k hrec
  · rw [← hpid, tokenOf_of_mem hr, htoken]
    rfl

/-- The process that a signal goes to. -/
def LeaseTracker.Sent.process (s : LeaseTracker.Sent) : ℤ × Token :=
  (s.pid, (s.table.tokenOf s.pid).join)

/-- **A signal of a reap is right**: by the scans up to the one of its own table. -/
def LeaseTracker.Sent.Right (leader : ℤ) (scans : Scans) (protectedPids : List ℤ)
    (s : LeaseTracker.Sent) : Prop :=
  ∃ earlier, scans <:+ earlier ∧
    Reached leader s.tracker ((s.table, protectedPids) :: earlier) ∧
      Rightly leader ((s.table, protectedPids) :: earlier) protectedPids s.table s.pid

theorem LeaseTracker.Sent.Right.mono {scans' : Scans} {protectedPids : List ℤ}
    {s : LeaseTracker.Sent} (h : s.Right leader scans' protectedPids) (hsuffix : scans <:+ scans') :
    s.Right leader scans protectedPids := by
  obtain ⟨earlier, hearlier, hright⟩ := h
  exact ⟨earlier, hsuffix.trans hearlier, hright⟩

/-- **What a part of a reap does**: it goes on from the scans there were, its signals are right, and
each goes to a process that has not had it. -/
structure Reaps (leader : ℤ) (signal : Signal) (T : LeaseTracker) (scans : Scans)
    (sent : List Key) (T' : LeaseTracker) (log : List LeaseTracker.Sent) : Prop where
  reached : ∃ scans', scans <:+ scans' ∧ Reached leader T' scans'
  protectedPids : T'.protectedPids = T.protectedPids
  right : ∀ s ∈ log, s.signal = signal ∧ s.Right leader scans T.protectedPids
  nodup : sent.Nodup → (sent ++ log.map LeaseTracker.Sent.process).Nodup

theorem sweep_reaps (h : Reached leader T scans) (signal : Signal) (sent : List Key)
    (rows : Option Table) {T' : LeaseTracker} {log : List LeaseTracker.Sent} {sent' : List Key}
    {live : Option (List ℤ)} (hsweep : LeaseTracker.sweep signal T sent rows = (T', log, sent', live)) :
    Reaps leader signal T scans sent T' log ∧ sent' = sent ++ log.map LeaseTracker.Sent.process := by
  cases rows with
  | none =>
    obtain ⟨rfl, rfl, rfl, -⟩ : T = T' ∧ [] = log ∧ sent = sent' ∧ none = live := by
      simpa [LeaseTracker.sweep] using hsweep
    exact ⟨⟨⟨scans, List.suffix_rfl, h⟩, rfl, fun s hs => (nomatch hs), fun h => by simpa using h⟩,
      by simp⟩
  | some t =>
    have hscan := h.scan t
    obtain ⟨keys, hkeys, hall, hnodup⟩ := signalLive_rightly (inv_of_reached hscan) t sent
    simp only [LeaseTracker.sweep, hkeys, List.map_map, Prod.mk.injEq] at hsweep
    obtain ⟨rfl, rfl, rfl, -⟩ := hsweep
    have hlog : (keys.map ((fun pid => ({ signal, tracker := T.scanTable t, table := t, pid } :
        LeaseTracker.Sent)) ∘ Prod.fst)).map LeaseTracker.Sent.process = keys := by
      rw [List.map_map]
      refine (List.map_congr_left fun k hk => ?_).trans (List.map_id _)
      exact Prod.ext rfl (hall k hk).2
    refine ⟨⟨⟨_, List.suffix_cons _ _, hscan⟩, rfl, fun s hs => ?_, fun h => ?_⟩, by rw [hlog]⟩
    · obtain ⟨k, hk, rfl⟩ := List.mem_map.1 hs
      exact ⟨rfl, scans, List.suffix_rfl, hscan, (hall k hk).1⟩
    · rw [hlog]
      exact hnodup h

/-- **A run of sweeps.** -/
theorem runSignal_reaps (h : Reached leader T scans) (signal : Signal) (sent : List Key)
    (tables : List (Option Table)) :
    Reaps leader signal T scans sent (LeaseTracker.runSignal signal T sent tables).1
      (LeaseTracker.runSignal signal T sent tables).2.1 := by
  induction tables generalizing T scans sent with
  | nil =>
    exact ⟨⟨scans, List.suffix_rfl, h⟩, rfl, fun s hs => (nomatch hs), fun h => by
      simpa [LeaseTracker.runSignal] using h⟩
  | cons rows rest ih =>
    rw [LeaseTracker.runSignal]
    rcases hsweep : LeaseTracker.sweep signal T sent rows with ⟨T₁, log, sent₁, live⟩
    obtain ⟨hfirst, rfl⟩ := sweep_reaps h signal sent rows hsweep
    simp only
    split_ifs with hstop
    · exact hfirst
    · obtain ⟨scans₁, hsuffix, hreached⟩ := hfirst.reached
      have hrest := ih hreached (sent ++ log.map LeaseTracker.Sent.process)
      obtain ⟨scans₂, hsuffix₂, hreached₂⟩ := hrest.reached
      refine ⟨⟨scans₂, hsuffix.trans hsuffix₂, hreached₂⟩,
        hrest.protectedPids.trans hfirst.protectedPids, fun s hs => ?_, fun hsent => ?_⟩
      · rcases List.mem_append.1 hs with hs | hs
        · exact hfirst.right s hs
        · obtain ⟨hsignal, hright⟩ := hrest.right s hs
          rw [hfirst.protectedPids] at hright
          exact ⟨hsignal, hright.mono hsuffix⟩
      · rw [List.map_append, ← List.append_assoc]
        exact hrest.nodup (hfirst.nodup hsent)

theorem reap_reaps (h : Reached leader T scans) (terms kills : List (Option Table)) :
    (∀ s ∈ (T.reap terms kills).2, s.Right leader scans T.protectedPids) ∧
      ((T.reap terms kills).2.map fun s => (s.signal, s.process)).Nodup := by
  have hpairs : ∀ log : List LeaseTracker.Sent, (log.map LeaseTracker.Sent.process).Nodup →
      (log.map fun s => (s.signal, s.process)).Nodup := by
    intro log hnodup
    refine List.Nodup.of_map Prod.snd ?_
    rwa [List.map_map]
  have hterm := runSignal_reaps h .sigterm [] terms
  obtain ⟨scans₁, hsuffix, hreached⟩ := hterm.reached
  have htermPairs := hpairs _ (hterm.nodup List.nodup_nil)
  unfold LeaseTracker.reap
  rcases hrun : LeaseTracker.runSignal .sigterm T [] terms with ⟨T₁, log, last⟩
  rw [hrun] at hterm hreached htermPairs
  simp only at hterm hreached htermPairs ⊢
  split_ifs with hdone
  · exact ⟨fun s hs => (hterm.right s hs).2, htermPairs⟩
  · have hkill := runSignal_reaps hreached .sigkill [] kills
    have hkillPairs := hpairs _ (hkill.nodup List.nodup_nil)
    simp only
    refine ⟨fun s hs => ?_, ?_⟩
    · rcases List.mem_append.1 hs with hs | hs
      · exact (hterm.right s hs).2
      · have hright := (hkill.right s hs).2
        rw [hterm.protectedPids] at hright
        exact hright.mono hsuffix
    · rw [List.map_append]
      refine List.nodup_append.2 ⟨htermPairs, hkillPairs, fun a ha b hb heq => ?_⟩
      -- the two runs send different signals
      obtain ⟨s, hs, rfl⟩ := List.mem_map.1 ha
      obtain ⟨s', hs', rfl⟩ := List.mem_map.1 hb
      have hsignal := (Prod.mk.inj heq).1
      rw [(hterm.right s hs).1, (hkill.right s' hs').1] at hsignal
      cases hsignal

end Life

/-- A leader with a server that has left its group. -/
def served : Table where
  rows :=
    [{ pid := 100, ppid := 10, token := some "a" }, { pid := 101, ppid := 100, token := some "b" }]
  nodup := by decide

end Leases
end LaneBroker
