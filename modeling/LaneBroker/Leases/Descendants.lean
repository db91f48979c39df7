/-
# The processes of a lease

`descendants.js`: a tracker keeps the processes it has seen in a lease's tree, each under its pid
with a start token, and each scan of the process table adds what carries the lease's marker and what
descends from a member.  The tree is said here of the table alone (`InTree`); a scan records all of
it (`records_tree`, whose walk ends by `walk_stack`) and lets no pid go that it had (`scan_keeps`).
A recorded pid counts as alive while a row has it under its token, or under none that could be read
(`mem_live_iff`), and of these a signal goes to those that could be read and have not had it yet
(`signalLive_spec`, `InTree.signalled`).
-/

import LaneBroker.Basis.OrderedMap
import Mathlib.Data.Int.Notation

namespace LaneBroker
namespace Leases

open LaneBroker.Basis

/-! ### Table and tracker -/

/-- The start token of a process, `none` where it could not be read. -/
abbrev Token := Option String

/-- **A row of the process table.** -/
structure Row where
  pid : ℤ
  ppid : ℤ
  token : Token
  /-- The environment has the lease's marker. -/
  marked : Bool := false
  /-- The process is there, and could not be read. -/
  unknown : Bool := false
  deriving DecidableEq

/-- **The process table**; a pid is one process. -/
structure Table where
  rows : List Row
  nodup : (rows.map Row.pid).Nodup

namespace Table

def rowOf (t : Table) (pid : ℤ) : Option Row := t.rows.find? fun r => r.pid = pid

def tokenOf (t : Table) (pid : ℤ) : Option Token := (t.rowOf pid).map Row.token

def childrenOf (t : Table) (pid : ℤ) : List Row := t.rows.filter fun r => r.ppid = pid

theorem row_inj {t : Table} {r r' : Row} (h : r ∈ t.rows) (h' : r' ∈ t.rows)
    (hpid : r.pid = r'.pid) : r = r' :=
  List.inj_on_of_nodup_map t.nodup h h' hpid

theorem rowOf_eq_some_iff {t : Table} {pid : ℤ} {r : Row} :
    t.rowOf pid = some r ↔ r ∈ t.rows ∧ r.pid = pid := by
  constructor
  · intro h
    exact ⟨List.mem_of_find?_eq_some h, by simpa using List.find?_some h⟩
  · rintro ⟨hr, rfl⟩
    obtain ⟨r', h'⟩ : ∃ r', t.rowOf r.pid = some r' :=
      Option.isSome_iff_exists.1 (List.find?_isSome.2 ⟨r, hr, by simp⟩)
    have hpid : r'.pid = r.pid := by simpa using List.find?_some h'
    rw [h', row_inj (List.mem_of_find?_eq_some h') hr hpid]

end Table

/-- **What a tracker has recorded**: pids with their tokens. -/
abbrev Recorded := OrderedMap ℤ Token

/-- **A tracker** whose leader is not known (`DescendantTracker`). -/
structure DescendantTracker where
  /-- The process that tracks, and its parent. -/
  protectedPids : List ℤ
  recorded : Recorded

/-- `DescendantTracker.fromSnapshot`. -/
def fromSnapshot (protectedPids : List ℤ) (snapshot : Recorded) : DescendantTracker where
  protectedPids := protectedPids
  recorded := OrderedMap.empty.setAll
    (snapshot.entries.filter fun e => e.1 ∉ protectedPids)

theorem mem_fromSnapshot_iff {protectedPids : List ℤ} {snapshot : Recorded} {e : ℤ × Token} :
    e ∈ (fromSnapshot protectedPids snapshot).recorded.entries ↔
      e ∈ snapshot.entries ∧ e.1 ∉ protectedPids := by
  have hnodup : ((snapshot.entries.filter fun e => e.1 ∉ protectedPids).map Prod.fst).Nodup :=
    snapshot.nodup.sublist (List.filter_sublist.map _)
  rw [fromSnapshot, OrderedMap.mem_setAll_iff hnodup, List.mem_filter]
  simp [OrderedMap.empty]

/-! ### The scan -/

/-- The state of the walk of a scan, the top of the stack first. -/
structure Walk where
  recorded : Recorded
  seen : List ℤ
  stack : List ℤ

namespace Walk

/-- `admit`. -/
def admitRow (w : Walk) (row : Row) : Walk where
  recorded := w.recorded.set row.pid row.token
  seen := if row.pid ∈ w.seen then w.seen else row.pid :: w.seen
  stack := if row.pid ∈ w.seen then w.stack else row.pid :: w.stack

/-- A child of a member. -/
def visit (protectedPids : List ℤ) (w : Walk) (child : Row) : Walk :=
  if child.pid ∈ protectedPids then w
  else if child.pid ∉ w.seen ∨ w.recorded.get child.pid ≠ some child.token then w.admitRow child
  else w

/-- **The walk**, for so many members at most. -/
def run (t : Table) (protectedPids : List ℤ) : ℕ → Walk → Walk
  | 0, w => w
  | fuel + 1, w =>
    match w.stack with
    | [] => w
    | pid :: stack =>
      run t protectedPids fuel
        ((t.childrenOf pid).foldl (visit protectedPids) { w with stack := stack })

/-- The walk after the marked rows, from those that are on the stack before. -/
def start (t : Table) (protectedPids : List ℤ) (recorded : Recorded) (stack : List ℤ) : Walk :=
  (t.rows.filter fun r => r.marked ∧ r.pid ∉ protectedPids).foldl admitRow ⟨recorded, stack, stack⟩

end Walk

namespace DescendantTracker

/-- The recorded pids that still run under their tokens, the last recorded on top. -/
def roots (tracker : DescendantTracker) (t : Table) : List ℤ :=
  ((tracker.recorded.entries.filter fun e => t.tokenOf e.1 = some e.2).map Prod.fst).reverse

/-- The walk after the marked rows. -/
def begun (tracker : DescendantTracker) (t : Table) : Walk :=
  (t.rows.filter fun r => r.marked ∧ r.pid ∉ tracker.protectedPids).foldl Walk.admitRow
    ⟨tracker.recorded, tracker.roots t, tracker.roots t⟩

/-- **Record every process in the tree** (`scan`), where the table could be read. -/
def scan (tracker : DescendantTracker) (t : Table) : DescendantTracker :=
  let w := tracker.begun t
  { tracker with
    recorded := (Walk.run t tracker.protectedPids (w.stack.length + t.rows.length) w).recorded }

/-- **The recorded pids that are alive**, or may be. -/
def live (tracker : DescendantTracker) (t : Table) : List ℤ :=
  (tracker.recorded.entries.filter fun e =>
    e.1 ∉ tracker.protectedPids ∧
      (t.rowOf e.1).any fun r => r.token = e.2 ∨ r.unknown).map Prod.fst

/-- A key `pid:token` of a process that was sent a signal. -/
abbrev Key := ℤ × Token

/-- One live member of `signalLive`: the pids signalled and the keys sent so far. -/
def signalOne (tracker : DescendantTracker) (t : Table) (done : List ℤ × List Key) (pid : ℤ) :
    List ℤ × List Key :=
  let key : Key := (pid, (tracker.recorded.get pid).join)
  if ¬ 1 < pid ∨ pid ∈ (t.rows.filter Row.unknown).map Row.pid ∨ key ∈ done.2 then done
  else (done.1 ++ [pid], done.2 ++ [key])

/-- **Signal every live member that has not had the signal** (`signalLive`): the pids it is sent to,
whether or not the sending succeeds, and the keys sent afterwards. -/
def signalLive (tracker : DescendantTracker) (t : Table) (sent : List Key) :
    List ℤ × List Key :=
  (tracker.live t).foldl (tracker.signalOne t) ([], sent)

end DescendantTracker

/-! ### The walk ends -/

/-- The rows not yet seen. -/
def Walk.unseen (w : Walk) (t : Table) : List Row := t.rows.filter fun r => r.pid ∉ w.seen

/-- How many members a walk may still go through. -/
def Walk.ahead (w : Walk) (t : Table) : ℕ := w.stack.length + (w.unseen t).length

theorem ahead_admitRow {t : Table} {row : Row} (h : row ∈ t.rows) (w : Walk) :
    (w.admitRow row).ahead t ≤ w.ahead t := by
  by_cases hseen : row.pid ∈ w.seen
  · simp [Walk.ahead, Walk.unseen, Walk.admitRow, hseen]
  · -- the row leaves the unseen rows as its pid goes on the stack
    have hrest : (w.admitRow row).unseen t =
        (w.unseen t).filter fun r => r.pid ≠ row.pid := by
      rw [Walk.unseen, Walk.unseen, List.filter_filter]
      refine List.filter_congr fun r _ => ?_
      simp [Walk.admitRow, hseen]
    have hmem : row ∈ w.unseen t := List.mem_filter.2 ⟨h, by simpa using hseen⟩
    have hless : ((w.admitRow row).unseen t).length < (w.unseen t).length := by
      rw [hrest]
      exact List.length_filter_lt_length_iff_exists.2 ⟨row, hmem, by simp⟩
    have hstack : (w.admitRow row).stack.length = w.stack.length + 1 := by
      simp [Walk.admitRow, hseen]
    show (w.admitRow row).stack.length + ((w.admitRow row).unseen t).length ≤
      w.stack.length + (w.unseen t).length
    omega

theorem visit_eq (protectedPids : List ℤ) (w : Walk) (child : Row) :
    w.visit protectedPids child = w ∨
      child.pid ∉ protectedPids ∧ w.visit protectedPids child = w.admitRow child := by
  unfold Walk.visit
  by_cases hprot : child.pid ∈ protectedPids
  · exact .inl (if_pos hprot)
  · rw [if_neg hprot]
    by_cases hnew : child.pid ∉ w.seen ∨ w.recorded.get child.pid ≠ some child.token
    · exact .inr ⟨hprot, if_pos hnew⟩
    · exact .inl (if_neg hnew)

theorem ahead_children {t : Table} {protectedPids : List ℤ} {children : List Row}
    (h : ∀ r ∈ children, r ∈ t.rows) (w : Walk) :
    (children.foldl (Walk.visit protectedPids) w).ahead t ≤ w.ahead t := by
  induction children generalizing w with
  | nil => exact Nat.le_refl _
  | cons r children ih =>
    have hr : (w.visit protectedPids r).ahead t ≤ w.ahead t := by
      obtain hsame | ⟨-, hadd⟩ := visit_eq protectedPids w r
      · exact Nat.le_of_eq (by rw [hsame])
      · rw [hadd]
        exact ahead_admitRow (h r (List.mem_cons_self ..)) w
    exact Nat.le_trans (ih (fun x hx => h x (List.mem_cons_of_mem _ hx)) _) hr

theorem mem_rows_of_child {t : Table} {pid : ℤ} {r : Row} (h : r ∈ t.childrenOf pid) :
    r ∈ t.rows := (List.mem_filter.1 h).1

/-- **The walk ends**: with as many steps as members ahead the stack is empty. -/
theorem walk_stack {t : Table} {protectedPids : List ℤ} {fuel : ℕ} (w : Walk)
    (h : w.ahead t ≤ fuel) : (Walk.run t protectedPids fuel w).stack = [] := by
  induction fuel generalizing w with
  | zero =>
    have hnone : w.stack.length = 0 := by
      have hle : w.stack.length + (w.unseen t).length ≤ 0 := h
      omega
    exact List.eq_nil_of_length_eq_zero hnone
  | succ fuel ih =>
    rw [Walk.run]
    match hstack : w.stack with
    | [] => exact hstack
    | pid :: stack =>
      have hpop : ({ w with stack := stack } : Walk).ahead t + 1 = w.ahead t := by
        show stack.length + (w.unseen t).length + 1 = w.stack.length + (w.unseen t).length
        rw [hstack, List.length_cons]
        omega
      have hchildren := @ahead_children t protectedPids (t.childrenOf pid)
        (fun r hr => mem_rows_of_child hr) { w with stack := stack }
      exact ih _ (by omega)

/-! ### What the walk records -/

/-- What a part of the walk keeps. -/
structure Walk.Keeps (t : Table) (w w' : Walk) : Prop where
  seen : ∀ pid ∈ w.seen, pid ∈ w'.seen
  /-- What is recorded as a row has it stays so. -/
  rows : ∀ r ∈ t.rows, (r.pid, r.token) ∈ w.recorded.entries →
    (r.pid, r.token) ∈ w'.recorded.entries
  /-- A pid keeps its token, or has the one of its row. -/
  pids : ∀ pid token, (pid, token) ∈ w.recorded.entries → ∃ token',
    (pid, token') ∈ w'.recorded.entries ∧
      (token' = token ∨ ∃ r ∈ t.rows, r.pid = pid ∧ r.token = token')

/-- What the visits between two pops do: what is newly seen goes on the stack. -/
structure Walk.Grows (t : Table) (w w' : Walk) : Prop extends Walk.Keeps t w w' where
  stack : ∀ pid ∈ w.stack, pid ∈ w'.stack
  fresh : ∀ pid ∈ w'.seen, pid ∈ w.seen ∨ pid ∈ w'.stack

theorem Walk.Keeps.refl (t : Table) (w : Walk) : w.Keeps t w where
  seen _ h := h
  rows _ _ h := h
  pids _ token h := ⟨token, h, .inl rfl⟩

theorem Walk.Keeps.trans {t : Table} {w w' w'' : Walk} (h : w.Keeps t w')
    (h' : w'.Keeps t w'') : w.Keeps t w'' where
  seen pid hpid := h'.seen pid (h.seen pid hpid)
  rows r hr hrec := h'.rows r hr (h.rows r hr hrec)
  pids pid token hrec := by
    obtain ⟨token', hrec', hfrom⟩ := h.pids pid token hrec
    obtain ⟨token'', hrec'', rfl | hrow⟩ := h'.pids pid token' hrec'
    · exact ⟨_, hrec'', hfrom⟩
    · exact ⟨token'', hrec'', .inr hrow⟩

theorem Walk.Grows.refl (t : Table) (w : Walk) : w.Grows t w where
  toKeeps := .refl t w
  stack _ h := h
  fresh _ h := .inl h

theorem Walk.Grows.trans {t : Table} {w w' w'' : Walk} (h : w.Grows t w')
    (h' : w'.Grows t w'') : w.Grows t w'' where
  toKeeps := h.toKeeps.trans h'.toKeeps
  stack pid hpid := h'.stack pid (h.stack pid hpid)
  fresh pid hpid := by
    obtain hseen | hstack := h'.fresh pid hpid
    · obtain hseen | hstack := h.fresh pid hseen
      · exact .inl hseen
      · exact .inr (h'.stack pid hstack)
    · exact .inr hstack

theorem admitRow_grows {t : Table} {row : Row} (h : row ∈ t.rows) (w : Walk) :
    w.Grows t (w.admitRow row) where
  seen pid hpid := by
    show pid ∈ ite _ _ _
    split
    · exact hpid
    · exact List.mem_cons_of_mem _ hpid
  rows r hr hrec := by
    refine OrderedMap.mem_set_iff.2 ?_
    by_cases hpid : r.pid = row.pid
    · exact .inl (Table.row_inj hr h hpid ▸ rfl)
    · exact .inr ⟨hrec, hpid⟩
  pids pid token hrec := by
    by_cases hpid : pid = row.pid
    · subst hpid
      exact ⟨row.token, OrderedMap.mem_set_self .., .inr ⟨row, h, rfl, rfl⟩⟩
    · exact ⟨token, OrderedMap.mem_set_iff.2 (.inr ⟨hrec, hpid⟩), .inl rfl⟩
  stack pid hpid := by
    show pid ∈ ite _ _ _
    split
    · exact hpid
    · exact List.mem_cons_of_mem _ hpid
  fresh pid hpid := by
    by_cases hseen : row.pid ∈ w.seen
    · exact .inl (by simpa [Walk.admitRow, hseen] using hpid)
    · have hpid : pid = row.pid ∨ pid ∈ w.seen := by simpa [Walk.admitRow, hseen] using hpid
      obtain rfl | hpid := hpid
      · exact .inr (by simp [Walk.admitRow, hseen])
      · exact .inl hpid

theorem admitRow_records (w : Walk) (row : Row) : row.pid ∈ (w.admitRow row).seen ∧
    (row.pid, row.token) ∈ (w.admitRow row).recorded.entries := by
  refine ⟨?_, OrderedMap.mem_set_self ..⟩
  show row.pid ∈ ite _ _ _
  split
  · assumption
  · exact List.mem_cons_self ..

theorem visit_grows {t : Table} {row : Row} (h : row ∈ t.rows) (protectedPids : List ℤ)
    (w : Walk) : w.Grows t (w.visit protectedPids row) := by
  obtain hsame | ⟨-, hadd⟩ := visit_eq protectedPids w row
  · rw [hsame]
    exact .refl t w
  · rw [hadd]
    exact admitRow_grows h w

theorem visit_records {protectedPids : List ℤ} {row : Row} (h : row.pid ∉ protectedPids)
    (w : Walk) : row.pid ∈ (w.visit protectedPids row).seen ∧
      (row.pid, row.token) ∈ (w.visit protectedPids row).recorded.entries := by
  rw [Walk.visit, if_neg h]
  by_cases hnew : row.pid ∉ w.seen ∨ w.recorded.get row.pid ≠ some row.token
  · rw [if_pos hnew]
    exact admitRow_records w row
  · rw [if_neg hnew]
    have hold : row.pid ∈ w.seen ∧ w.recorded.get row.pid = some row.token := by simpa using hnew
    exact ⟨hold.1, OrderedMap.get_eq_some_iff.1 hold.2⟩

/-- **Going through a list of rows**, each of which grows the walk: those that are recorded at their
turn are so at the end. -/
theorem rows_grow {t : Table} {f : Walk → Row → Walk} {P : Row → Prop} {rows : List Row}
    (hrows : ∀ r ∈ rows, r ∈ t.rows) (hgrows : ∀ w : Walk, ∀ r ∈ t.rows, w.Grows t (f w r))
    (hrec : ∀ w r, P r → r.pid ∈ (f w r).seen ∧ (r.pid, r.token) ∈ (f w r).recorded.entries)
    (w : Walk) :
    w.Grows t (rows.foldl f w) ∧ ∀ r ∈ rows, P r →
      r.pid ∈ (rows.foldl f w).seen ∧ (r.pid, r.token) ∈ (rows.foldl f w).recorded.entries := by
  induction rows generalizing w with
  | nil => exact ⟨.refl t w, fun r hr => absurd hr List.not_mem_nil⟩
  | cons x rows ih =>
    have hx : x ∈ t.rows := hrows x (List.mem_cons_self ..)
    obtain ⟨hrest, hall⟩ := ih (fun r hr => hrows r (List.mem_cons_of_mem _ hr)) (f w x)
    refine ⟨(hgrows w x hx).trans hrest, fun r hr hP => ?_⟩
    obtain rfl | hr := List.mem_cons.1 hr
    · obtain ⟨hseen, hentry⟩ := hrec w r hP
      exact ⟨hrest.seen _ hseen, hrest.rows r hx hentry⟩
    · exact hall r hr hP

/-- **What is behind the walk is done**: the children of what was seen and is not on the stack. -/
def Walk.Done (t : Table) (protectedPids : List ℤ) (w : Walk) : Prop :=
  ∀ r ∈ t.rows, r.pid ∉ protectedPids → r.ppid ∈ w.seen → r.ppid ∉ w.stack →
    r.pid ∈ w.seen ∧ (r.pid, r.token) ∈ w.recorded.entries

theorem Walk.Done.run {t : Table} {protectedPids : List ℤ} {fuel : ℕ} {w : Walk}
    (h : w.Done t protectedPids) :
    w.Keeps t (Walk.run t protectedPids fuel w) ∧
      (Walk.run t protectedPids fuel w).Done t protectedPids := by
  induction fuel generalizing w with
  | zero => exact ⟨.refl t w, h⟩
  | succ fuel ih =>
    rw [Walk.run]
    match hstack : w.stack with
    | [] => exact ⟨.refl t w, h⟩
    | pid :: stack =>
      obtain ⟨hgrows, hall⟩ := @rows_grow t (Walk.visit protectedPids)
        (fun r => r.pid ∉ protectedPids) (t.childrenOf pid) (fun r hr => mem_rows_of_child hr)
        (fun w r hr => visit_grows hr protectedPids w) (fun w r hr => visit_records hr w)
        { w with stack := stack }
      have hdone : ((t.childrenOf pid).foldl (Walk.visit protectedPids)
          { w with stack := stack }).Done t protectedPids := by
        intro r hr hprot hseen hoff
        obtain hold | hfresh := hgrows.fresh r.ppid hseen
        · by_cases hpop : r.ppid = pid
          · exact hall r (List.mem_filter.2 ⟨hr, by simpa using hpop⟩) hprot
          · -- the parent was off the stack before the pop, so the row was recorded then
            have hbefore : r.ppid ∉ w.stack := by
              rw [hstack, List.mem_cons, not_or]
              exact ⟨hpop, fun hmem => hoff (hgrows.stack _ hmem)⟩
            obtain ⟨hmem, hentry⟩ := h r hr hprot hold hbefore
            exact ⟨hgrows.seen _ hmem, hgrows.rows r hr hentry⟩
        · exact absurd hfresh hoff
      obtain ⟨hkeeps, hend⟩ := ih hdone
      have hpop : w.Keeps t { w with stack := stack } := ⟨fun _ h => h, fun _ _ h => h,
        fun _ token h => ⟨token, h, .inl rfl⟩⟩
      exact ⟨(hpop.trans hgrows.toKeeps).trans hkeeps, hend⟩

/-! ### What a scan records -/

/-- **The tree of a lease**, as the table shows it: what runs under a recorded token, what carries
the marker, and what has a member for a parent.  The protected processes are not of it. -/
inductive InTree (t : Table) (protectedPids : List ℤ) (recorded : Recorded) : Row → Prop
  | recorded {r : Row} : r ∈ t.rows → r.pid ∉ protectedPids →
      (r.pid, r.token) ∈ recorded.entries → InTree t protectedPids recorded r
  | marked {r : Row} : r ∈ t.rows → r.pid ∉ protectedPids → r.marked = true →
      InTree t protectedPids recorded r
  | child {parent r : Row} : InTree t protectedPids recorded parent → r ∈ t.rows →
      r.pid ∉ protectedPids → r.ppid = parent.pid → InTree t protectedPids recorded r

theorem InTree.mem {t : Table} {protectedPids : List ℤ} {recorded : Recorded} {r : Row}
    (h : InTree t protectedPids recorded r) : r ∈ t.rows ∧ r.pid ∉ protectedPids := by
  cases h with
  | recorded hr hprot | marked hr hprot | child _ hr hprot => exact ⟨hr, hprot⟩

variable {tracker : DescendantTracker} {t : Table}

theorem start_records (t : Table) (protectedPids : List ℤ) (recorded : Recorded)
    (stack : List ℤ) :
    Walk.Grows t ⟨recorded, stack, stack⟩ (Walk.start t protectedPids recorded stack) ∧
      ∀ r ∈ t.rows, r.pid ∉ protectedPids → r.marked = true →
        r.pid ∈ (Walk.start t protectedPids recorded stack).seen ∧
          (r.pid, r.token) ∈ (Walk.start t protectedPids recorded stack).recorded.entries := by
  obtain ⟨hgrows, hall⟩ := @rows_grow t Walk.admitRow (fun _ => True)
    (t.rows.filter fun r => r.marked ∧ r.pid ∉ protectedPids)
    (fun r hr => (List.mem_filter.1 hr).1) (fun w r hr => admitRow_grows hr w)
    (fun w r _ => admitRow_records w r) ⟨recorded, stack, stack⟩
  exact ⟨hgrows, fun r hr hprot hmark =>
    hall r (List.mem_filter.2 ⟨hr, by simp [hmark, hprot]⟩) trivial⟩

/-- **A walk from a stack** comes to its end with every child behind it recorded. -/
theorem walk_done (t : Table) (protectedPids : List ℤ) (recorded : Recorded)
    (stack : List ℤ) {w w' : Walk} (hw : w = Walk.start t protectedPids recorded stack)
    (hw' : w' = Walk.run t protectedPids (w.stack.length + t.rows.length) w) :
    w.Keeps t w' ∧ ∀ r ∈ t.rows, r.pid ∉ protectedPids → r.ppid ∈ w'.seen →
      r.pid ∈ w'.seen ∧ (r.pid, r.token) ∈ w'.recorded.entries := by
  subst hw hw'
  obtain ⟨hgrows, -⟩ := start_records t protectedPids recorded stack
  have hstart : (Walk.start t protectedPids recorded stack).Done t protectedPids := by
    intro r _ _ hseen hoff
    -- at the start all that was seen is on the stack
    obtain hroot | hstack := hgrows.fresh r.ppid hseen
    · exact absurd (hgrows.stack _ hroot) hoff
    · exact absurd hstack hoff
  obtain ⟨hkeeps, hdone⟩ := hstart.run
  refine ⟨hkeeps, fun r hr hprot hseen => hdone r hr hprot hseen ?_⟩
  rw [walk_stack _ (Nat.add_le_add_left (List.length_filter_le ..) _)]
  exact List.not_mem_nil

/-- The walk of a scan comes to its end with every child behind it recorded. -/
theorem scan_done (tracker : DescendantTracker) (t : Table) : ∃ w : Walk,
    (tracker.scan t).recorded = w.recorded ∧ (tracker.begun t).Keeps t w ∧
      ∀ r ∈ t.rows, r.pid ∉ tracker.protectedPids → r.ppid ∈ w.seen →
        r.pid ∈ w.seen ∧ (r.pid, r.token) ∈ w.recorded.entries :=
  ⟨_, rfl, walk_done t tracker.protectedPids tracker.recorded (tracker.roots t) rfl rfl⟩

/-- **A scan records the whole tree**, each process under the token of its row. -/
theorem records_tree {r : Row} (h : InTree t tracker.protectedPids tracker.recorded r) :
    (r.pid, r.token) ∈ (tracker.scan t).recorded.entries := by
  obtain ⟨w, hw, hkeeps, hdone⟩ := scan_done tracker t
  obtain ⟨hgrows, hmarked⟩ :=
    start_records t tracker.protectedPids tracker.recorded (tracker.roots t)
  suffices hall : r.pid ∈ w.seen ∧ (r.pid, r.token) ∈ w.recorded.entries from hw ▸ hall.2
  induction h with
  | @recorded r hr _ hrec =>
    have htoken : t.tokenOf r.pid = some r.token := by
      rw [Table.tokenOf, Table.rowOf_eq_some_iff.2 ⟨hr, rfl⟩, Option.map_some]
    have hroot : r.pid ∈ tracker.roots t := List.mem_reverse.2 (List.mem_map.2
      ⟨(r.pid, r.token), List.mem_filter.2 ⟨hrec, by simpa using htoken⟩, rfl⟩)
    exact ⟨hkeeps.seen _ (hgrows.seen _ hroot), hkeeps.rows r hr (hgrows.rows r hr hrec)⟩
  | @marked r hr hprot hmark =>
    obtain ⟨hseen, hrec⟩ := hmarked r hr hprot hmark
    exact ⟨hkeeps.seen _ hseen, hkeeps.rows r hr hrec⟩
  | @child parent r _ hr hprot hppid ih => exact hdone r hr hprot (hppid ▸ ih.1)

/-- **A scan lets no pid go**: it keeps its token, or has the one of its row. -/
theorem scan_keeps {pid : ℤ} {token : Token} (h : (pid, token) ∈ tracker.recorded.entries) :
    ∃ token', (pid, token') ∈ (tracker.scan t).recorded.entries ∧
      (token' = token ∨ ∃ r ∈ t.rows, r.pid = pid ∧ r.token = token') := by
  obtain ⟨w, hw, hkeeps, -⟩ := scan_done tracker t
  rw [hw]
  have hbegun := (start_records t tracker.protectedPids tracker.recorded (tracker.roots t)).1
  exact (hbegun.toKeeps.trans hkeeps).pids pid token h

/-! ### Who is alive, and who is signalled -/

/-- **Alive, or not known to be gone**: a row has the pid under the token, or could not be read. -/
def Alive (t : Table) (pid : ℤ) (token : Token) : Prop :=
  ∃ r ∈ t.rows, r.pid = pid ∧ (r.token = token ∨ r.unknown = true)

theorem mem_live_iff {pid : ℤ} : pid ∈ tracker.live t ↔
    pid ∉ tracker.protectedPids ∧
      ∃ token, (pid, token) ∈ tracker.recorded.entries ∧ Alive t pid token := by
  rw [DescendantTracker.live, List.mem_map]
  constructor
  · rintro ⟨⟨pid, token⟩, he, rfl⟩
    obtain ⟨hrec, hlive⟩ := List.mem_filter.1 he
    obtain ⟨hprot, hrow⟩ : pid ∉ tracker.protectedPids ∧
        ((t.rowOf pid).any fun r => r.token = token ∨ r.unknown) = true := by
      simpa only [decide_eq_true_eq] using hlive
    obtain ⟨r, hr, halive⟩ := (Option.any_eq_true _ _).1 hrow
    obtain ⟨hmem, hpid⟩ := Table.rowOf_eq_some_iff.1 hr
    exact ⟨hprot, token, hrec, r, hmem, hpid, by simpa using halive⟩
  · rintro ⟨hprot, token, hrec, r, hmem, hpid, halive⟩
    refine ⟨(pid, token), List.mem_filter.2 ⟨hrec, ?_⟩, rfl⟩
    have hr : t.rowOf pid = some r := Table.rowOf_eq_some_iff.2 ⟨hmem, hpid⟩
    simpa [hr, hprot] using halive

@[simp] theorem scan_protectedPids :
    (tracker.scan t).protectedPids = tracker.protectedPids := rfl

/-- What is in the tree counts as alive after the scan. -/
theorem InTree.live {r : Row} (h : InTree t tracker.protectedPids tracker.recorded r) :
    r.pid ∈ (tracker.scan t).live t :=
  mem_live_iff.2 ⟨h.mem.2, r.token, records_tree h, r, h.mem.1, rfl, .inl rfl⟩

/-- What was recorded before the scan and is alive counts as alive after it. -/
theorem Alive.live {pid : ℤ} {token : Token} (h : Alive t pid token)
    (hprot : pid ∉ tracker.protectedPids) (hrec : (pid, token) ∈ tracker.recorded.entries) :
    pid ∈ (tracker.scan t).live t := by
  obtain ⟨r, hr, rfl, halive⟩ := h
  obtain ⟨token', hrec', hfrom⟩ := @scan_keeps tracker t r.pid token hrec
  refine mem_live_iff.2 ⟨hprot, token', hrec', r, hr, rfl, ?_⟩
  obtain rfl | ⟨r', hr', hpid, rfl⟩ := hfrom
  · exact halive
  · exact .inl (congrArg Row.token (Table.row_inj hr hr' hpid.symm))

open DescendantTracker

/-- One member is passed over, being no pid to signal, unread or sent it already, or it is sent the
signal and its key kept. -/
theorem signalOne_cases (tracker : DescendantTracker) (t : Table) (done : List ℤ × List Key)
    (pid : ℤ) :
    (tracker.signalOne t done pid = done ∧
        (¬ 1 < pid ∨ (∃ r ∈ t.rows, r.unknown = true ∧ r.pid = pid) ∨
          pid ∈ done.2.map Prod.fst)) ∨
      ∃ token : Token,
        tracker.signalOne t done pid = (done.1 ++ [pid], done.2 ++ [(pid, token)]) := by
  by_cases hskip : ¬ 1 < pid ∨ pid ∈ (t.rows.filter Row.unknown).map Row.pid ∨
      (pid, (tracker.recorded.get pid).join) ∈ done.2
  · refine .inl ⟨if_pos hskip, ?_⟩
    obtain hlow | hunknown | hsent := hskip
    · exact .inl hlow
    · obtain ⟨r, hr, hpid⟩ := List.mem_map.1 hunknown
      obtain ⟨hmem, hr⟩ := List.mem_filter.1 hr
      exact .inr (.inl ⟨r, hmem, hr, hpid⟩)
    · exact .inr (.inr (List.mem_map_of_mem hsent))
  · exact .inr ⟨_, if_neg hskip⟩

theorem signalAll_spec (tracker : DescendantTracker) (t : Table) (pids : List ℤ)
    (done : List ℤ × List Key) : ∃ keys : List Key,
      pids.foldl (tracker.signalOne t) done = (done.1 ++ keys.map Prod.fst, done.2 ++ keys) ∧
        ∀ pid ∈ pids, 1 < pid → (∀ r ∈ t.rows, r.pid = pid → r.unknown = false) →
          pid ∈ (done.2 ++ keys).map Prod.fst := by
  induction pids generalizing done with
  | nil => exact ⟨[], by simp, fun pid hpid => absurd hpid List.not_mem_nil⟩
  | cons x pids ih =>
    rw [List.foldl_cons]
    obtain ⟨hsame, hwhy⟩ | ⟨token, hsent⟩ := signalOne_cases tracker t done x
    · obtain ⟨keys, hkeys, hall⟩ := ih done
      rw [hsame]
      refine ⟨keys, hkeys, fun pid hpid hlow hread => ?_⟩
      obtain rfl | hpid := List.mem_cons.1 hpid
      · obtain hnot | ⟨r, hr, hunknown, hrpid⟩ | hmem := hwhy
        · exact absurd hlow hnot
        · exact absurd (hread r hr hrpid) (by simp [hunknown])
        · rw [List.map_append]
          exact List.mem_append_left _ hmem
      · exact hall pid hpid hlow hread
    · obtain ⟨keys, hkeys, hall⟩ := ih (done.1 ++ [x], done.2 ++ [(x, token)])
      rw [hsent]
      refine ⟨(x, token) :: keys, by rw [hkeys]; simp, fun pid hpid hlow hread => ?_⟩
      obtain rfl | hpid := List.mem_cons.1 hpid
      · simp
      · have hmem := hall pid hpid hlow hread
        rwa [List.append_assoc] at hmem

/-- **What `signalLive` does**: it sends the signal to the pids whose keys it adds, and every live
member that is a pid to signal and could be read has its key among the sent ones. -/
theorem signalLive_spec (tracker : DescendantTracker) (t : Table) (sent : List Key) :
    ∃ keys : List Key, tracker.signalLive t sent = (keys.map Prod.fst, sent ++ keys) ∧
      ∀ pid ∈ tracker.live t, 1 < pid → (∀ r ∈ t.rows, r.pid = pid → r.unknown = false) →
        pid ∈ (sent ++ keys).map Prod.fst := by
  obtain ⟨keys, hkeys, hall⟩ := signalAll_spec tracker t (tracker.live t) ([], sent)
  exact ⟨keys, by simpa [signalLive] using hkeys, hall⟩

/-- **A first signal reaches the tree**: whoever has had none yet and is of the tree, could be read
and is a pid to signal is sent it. -/
theorem InTree.signalled {r : Row} (h : InTree t tracker.protectedPids tracker.recorded r)
    (hlow : 1 < r.pid) (hread : r.unknown = false) :
    r.pid ∈ ((tracker.scan t).signalLive t []).1 := by
  obtain ⟨keys, hkeys, hall⟩ := signalLive_spec (tracker.scan t) t []
  rw [hkeys]
  refine hall r.pid h.live hlow fun r' hr' hpid => ?_
  rw [Table.row_inj hr' h.mem.1 hpid]
  exact hread

end Leases
end LaneBroker
