/-
# The lock file of a store

`store/lock.js`, the file mode: `acquireStoreLock` with its reclaim of a dead owner's lock,
and the handle of `holder`.  A process links its private file to `store.lock` and then opens
`store.lock`, in two calls; the handle's fence compares what it opened with what the path
names.

Files are numbered as they are created, and a number is not used again: a file that is open
keeps its inode.  The private file itself is looked at by nobody else.  Any call may fail for
a reason of its own, and any process may die between two calls.
-/

import LaneBroker.Basis.Machine
import Mathlib.Logic.Function.Basic
import Mathlib.Order.Nat

namespace LaneBroker
namespace Store
namespace FileLock

open LaneBroker.Basis

/-! ### The processes -/

/-- What a lock file says: `{pid, token}`. -/
structure Owner where
  pid : Nat
  token : Nat
  deriving DecidableEq, Repr

/-- The private file of a call, and its token. -/
structure Mine where
  file : Nat
  token : Nat
  deriving DecidableEq, Repr

/-- **Where a process is**: the call that comes next. -/
inductive Phase
  | idle
  /-- `linkSync(temp, file)`. -/
  | link (mine : Mine) (attempt : Nat)
  /-- `openSync(file)` of `holder`. -/
  | openLock (mine : Mine)
  /-- It has the handle, with this file open. -/
  | holding (mine : Mine) (held : Nat)
  /-- `readLock(file)`. -/
  | readLock (mine : Mine) (attempt : Nat)
  /-- `alive(seen.pid)`. -/
  | judge (mine : Mine) (attempt : Nat) (seen : Owner)
  /-- `renameSync(file, aside)`. -/
  | rename (mine : Mine) (attempt : Nat) (seen : Owner)
  /-- `readLock(aside)`. -/
  | reread (mine : Mine) (attempt : Nat) (seen : Owner)
  /-- `rmSync(aside)` of the stale lock. -/
  | rmAside (mine : Mine) (attempt : Nat)
  /-- `linkSync(aside, file)`. -/
  | putBack
  /-- `rmSync(aside)` of a lock that is not the stale one. -/
  | dropAside
  /-- `readLock(file)` of `release`. -/
  | release (mine : Mine)
  /-- `rmSync(file)` of `release`. -/
  | unlink
  deriving DecidableEq, Repr

/-- **The store root and its processes.** -/
structure World where
  /-- What `store.lock` names. -/
  lock : Option Nat := none
  /-- What `store.lock.stale.<pid>` names. -/
  asides : Nat → Option Nat := fun _ => none
  owners : Nat → Owner := fun _ => ⟨0, 0⟩
  nextFile : Nat := 0
  phase : Nat → Phase := fun _ => .idle
  dead : Nat → Bool := fun _ => false

/-- **The steps of a process.** -/
inductive Act
  /-- `acquireStoreLock` is called, and its private file is written. -/
  | acquire (token : Nat)
  /-- The next call, which may fail; for `alive` this means that the pid is in use again. -/
  | call (fails : Bool)
  /-- `release` is called. -/
  | letGo
  | die
  deriving DecidableEq, Repr

/-! ### The steps -/

namespace World

variable (w : World)

/-- The process goes on. -/
def become (pid : Nat) (p : Phase) : World := { w with phase := Function.update w.phase pid p }

/-- The loop goes round, five times in all. -/
def retry (pid : Nat) (mine : Mine) (attempt : Nat) : World :=
  w.become pid (if attempt + 1 < 5 then .link mine (attempt + 1) else .idle)

/-- What `readLock` gives. -/
def read (name : Option Nat) (fails : Bool) : Option Owner :=
  if fails then none else name.map w.owners

/-- **The next call of a process.** -/
def callNext (pid : Nat) (fails : Bool) : Option World :=
  match w.phase pid with
  | .idle | .holding _ _ => none
  | .link mine attempt =>
    if fails then some (w.become pid .idle)
    else if w.lock.isSome then some (w.become pid (.readLock mine attempt))
    else some ({ w with lock := some mine.file }.become pid (.openLock mine))
  | .openLock mine =>
    match if fails then none else w.lock with
    | none => some (w.become pid .idle)
    | some held => some (w.become pid (.holding mine held))
  | .readLock mine attempt =>
    match w.read w.lock fails with
    | none => some (w.become pid .idle)
    | some seen => some (w.become pid (.judge mine attempt seen))
  | .judge mine attempt seen =>
    if fails || !w.dead seen.pid then some (w.become pid .idle)
    else some (w.become pid (.rename mine attempt seen))
  | .rename mine attempt seen =>
    if fails then some (w.become pid .idle)
    else
      match w.lock with
      | none => some (w.retry pid mine attempt)
      | some file =>
        -- two names of one file: nothing is renamed
        if w.asides pid = some file then some (w.become pid (.reread mine attempt seen))
        else
          some ({ w with lock := none, asides := Function.update w.asides pid (some file) }.become
            pid (.reread mine attempt seen))
  | .reread mine attempt seen =>
    if (w.read (w.asides pid) fails).map Owner.token = some seen.token then
      some (w.become pid (.rmAside mine attempt))
    else some (w.become pid .putBack)
  | .rmAside mine attempt =>
    if fails then some (w.become pid .idle)
    else some ({ w with asides := Function.update w.asides pid none }.retry pid mine attempt)
  | .putBack =>
    if fails || w.lock.isSome then some (w.become pid .dropAside)
    else some ({ w with lock := w.asides pid }.become pid .dropAside)
  | .dropAside =>
    if fails then some (w.become pid .idle)
    else some ({ w with asides := Function.update w.asides pid none }.become pid .idle)
  | .release mine =>
    if (w.read w.lock fails).map Owner.token = some mine.token then some (w.become pid .unlink)
    else some (w.become pid .idle)
  | .unlink => some ({ w with lock := if fails then w.lock else none }.become pid .idle)

/-- **One step of a process.** -/
def next (pid : Nat) (act : Act) : Option World :=
  if w.dead pid then none
  else
    match act with
    | .acquire token =>
      if w.phase pid = .idle then
        some ({ w with owners := Function.update w.owners w.nextFile ⟨pid, token⟩,
                       nextFile := w.nextFile + 1 }.become pid (.link ⟨w.nextFile, token⟩ 0))
      else none
    | .call fails => w.callNext pid fails
    | .letGo =>
      match w.phase pid with
      | .holding mine _ => some (w.become pid (.release mine))
      | _ => none
    | .die => some { w with dead := Function.update w.dead pid true }

/-- **The handle of a live process whose `assertHeld` succeeds.** -/
def Passes (pid : Nat) : Prop :=
  w.dead pid = false ∧ ∃ mine held, w.phase pid = .holding mine held ∧ w.lock = some held

/-- **The open that follows a link finds the file of another call**: the process was displaced in
between. -/
def OpensAnother (pid : Nat) (act : Act) : Prop :=
  ∃ mine held, w.phase pid = .openLock mine ∧ act = .call false ∧ w.lock = some held ∧
    held ≠ mine.file

end World

/-- **The lock**: at the start nobody is in a call, and whatever lock there is was left behind. -/
def storeLock : Machine World (Nat × Act) where
  start w := ∀ pid, w.phase pid = .idle
  next w move := w.next move.1 move.2

/-! ### What a step does -/

/-- The private file of the call that a process is in. -/
def Phase.mine : Phase → Option Nat
  | .link mine _ | .openLock mine | .holding mine _ | .readLock mine _ | .judge mine _ _
  | .rename mine _ _ | .reread mine _ _ | .rmAside mine _ | .release mine => some mine.file
  | .idle | .putBack | .dropAside | .unlink => none

variable {w w' : World} {pid : Nat} {act : Act}

/-- **A step in one lemma**: one process goes on, with the same private file, a new one or none; and
it has opened a file only if it opens it now. -/
structure Steps (w w' : World) (pid : Nat) (act : Act) : Prop where
  others : ∀ other ≠ pid, w'.phase other = w.phase other
  mine : (w'.phase pid).mine = none ∨
    ((w'.phase pid).mine = (w.phase pid).mine ∧ w'.nextFile = w.nextFile) ∨
    ((w'.phase pid).mine = some w.nextFile ∧ w'.nextFile = w.nextFile + 1)
  mono : w.nextFile ≤ w'.nextFile
  opened : ∀ mine held, w'.phase pid = .holding mine held → w.phase pid = .holding mine held ∨
    w.phase pid = .openLock mine ∧ act = .call false ∧ w.lock = some held

/-- A step that only moves the process on. -/
theorem steps_become {p : Phase} (hphase : w'.phase = w.phase) (hnext : w'.nextFile = w.nextFile)
    (hmine : p.mine = none ∨ p.mine = (w.phase pid).mine)
    (hopened : ∀ mine held, p = .holding mine held →
      w.phase pid = .openLock mine ∧ act = .call false ∧ w.lock = some held) :
    Steps w (w'.become pid p) pid act := by
  have hthis : (w'.become pid p).phase pid = p := by simp [World.become]
  refine ⟨fun other hne => ?_, ?_, hnext.symm.le, fun mine held h => .inr ?_⟩
  · simp [World.become, hne, hphase]
  · rw [hthis]
    rcases hmine with hnone | hsame
    · exact .inl hnone
    · exact .inr (.inl ⟨hsame, hnext⟩)
  · rw [hthis] at h
    exact hopened mine held h

/-- The process ends, or goes on without a private file. -/
theorem steps_without {v : World} {p : Phase} (h : some (v.become pid p) = some w')
    (hphase : v.phase = w.phase) (hnext : v.nextFile = w.nextFile) (hnone : p.mine = none) :
    Steps w w' pid act := by
  obtain rfl := Option.some.inj h
  refine steps_become hphase hnext (.inl hnone) fun _ _ heq => ?_
  rw [heq] at hnone
  cases hnone

theorem steps_retry {mine : Mine} {attempt : Nat} (hphase : w'.phase = w.phase)
    (hnext : w'.nextFile = w.nextFile) (hmine : (w.phase pid).mine = some mine.file) :
    Steps w (w'.retry pid mine attempt) pid act := by
  unfold World.retry
  refine steps_become hphase hnext ?_ ?_
  · split_ifs
    · exact .inr hmine.symm
    · exact .inl rfl
  · intro mine held h
    split_ifs at h

theorem steps_of_callNext {fails : Bool} (h : w.callNext pid fails = some w') :
    Steps w w' pid (.call fails) := by
  unfold World.callNext at h
  split at h
  · cases h
  · cases h
  · rename_i mine attempt hphase
    split_ifs at h
    · exact steps_without h rfl rfl rfl
    · obtain rfl := Option.some.inj h
      exact steps_become rfl rfl (.inr (by rw [hphase]; rfl)) nofun
    · obtain rfl := Option.some.inj h
      exact steps_become rfl rfl (.inr (by rw [hphase]; rfl)) nofun
  · rename_i mine hphase
    split at h
    · exact steps_without h rfl rfl rfl
    · rename_i held hheld
      obtain rfl := Option.some.inj h
      refine steps_become rfl rfl (.inr (by rw [hphase]; rfl)) fun mine' held' heq => ?_
      obtain ⟨rfl, rfl⟩ := Phase.holding.inj heq
      split_ifs at hheld with hfails
      rw [Bool.not_eq_true] at hfails
      exact ⟨hphase, by rw [hfails], hheld⟩
  · rename_i mine attempt hphase
    split at h
    · exact steps_without h rfl rfl rfl
    · obtain rfl := Option.some.inj h
      exact steps_become rfl rfl (.inr (by rw [hphase]; rfl)) nofun
  · rename_i mine attempt seen hphase
    split_ifs at h
    · exact steps_without h rfl rfl rfl
    · obtain rfl := Option.some.inj h
      exact steps_become rfl rfl (.inr (by rw [hphase]; rfl)) nofun
  · rename_i mine attempt seen hphase
    split_ifs at h
    · exact steps_without h rfl rfl rfl
    · split at h
      · obtain rfl := Option.some.inj h
        exact steps_retry rfl rfl (by rw [hphase]; rfl)
      · split_ifs at h
        · obtain rfl := Option.some.inj h
          exact steps_become rfl rfl (.inr (by rw [hphase]; rfl)) nofun
        · obtain rfl := Option.some.inj h
          exact steps_become rfl rfl (.inr (by rw [hphase]; rfl)) nofun
  · rename_i mine attempt seen hphase
    split_ifs at h
    · obtain rfl := Option.some.inj h
      exact steps_become rfl rfl (.inr (by rw [hphase]; rfl)) nofun
    · exact steps_without h rfl rfl rfl
  · rename_i mine attempt hphase
    split_ifs at h
    · exact steps_without h rfl rfl rfl
    · obtain rfl := Option.some.inj h
      exact steps_retry rfl rfl (by rw [hphase]; rfl)
  · split_ifs at h
    · exact steps_without h rfl rfl rfl
    · exact steps_without h rfl rfl rfl
  · split_ifs at h
    · exact steps_without h rfl rfl rfl
    · exact steps_without h rfl rfl rfl
  · split_ifs at h
    · exact steps_without h rfl rfl rfl
    · exact steps_without h rfl rfl rfl
  · exact steps_without h rfl rfl rfl

theorem steps_of_next (h : w.next pid act = some w') : Steps w w' pid act := by
  unfold World.next at h
  split at h
  · cases h
  cases act with
  | acquire token =>
    dsimp only at h
    split_ifs at h
    obtain rfl := Option.some.inj h
    refine ⟨fun other hne => by simp [World.become, hne], .inr (.inr ⟨?_, rfl⟩),
      Nat.le_succ _, fun mine held hheld => ?_⟩
    · simp [World.become, Phase.mine]
    · simp [World.become] at hheld
  | call fails => exact steps_of_callNext h
  | letGo =>
    dsimp only at h
    split at h
    · rename_i mine held hphase
      obtain rfl := Option.some.inj h
      exact steps_become rfl rfl (.inr (by rw [hphase]; rfl)) nofun
    · cases h
  | die =>
    obtain rfl := Option.some.inj h
    exact ⟨fun _ _ => rfl, .inr (.inl ⟨rfl, rfl⟩), le_rfl, fun _ _ hheld => .inl hheld⟩

/-! ### One holder -/

/-- **What a run keeps** as long as no open finds another's file: the private files are apart, and
who holds the lock has its own file open. -/
structure Apart (w : World) : Prop where
  known : ∀ pid file, (w.phase pid).mine = some file → file < w.nextFile
  apart : ∀ pid other file, (w.phase pid).mine = some file → (w.phase other).mine = some file →
    pid = other
  own : ∀ pid mine held, w.phase pid = .holding mine held → held = mine.file

theorem apart_start (h : ∀ pid, w.phase pid = .idle) : Apart w := by
  refine ⟨fun pid file hmine => ?_, fun pid other file hmine => ?_, fun pid mine held hheld => ?_⟩
  · rw [h] at hmine
    cases hmine
  · rw [h] at hmine
    cases hmine
  · rw [h] at hheld
    cases hheld

/-- What a process has for its private file after a step: what it had, or the new one. -/
theorem Steps.mine_cases (h : Steps w w' pid act) {other file : Nat}
    (hmine : (w'.phase other).mine = some file) : (w.phase other).mine = some file ∨
      other = pid ∧ file = w.nextFile ∧ w'.nextFile = w.nextFile + 1 := by
  by_cases hne : other = pid
  · subst hne
    rcases h.mine with hnone | ⟨hsame, -⟩ | ⟨hnew, hnext⟩
    · rw [hnone] at hmine
      cases hmine
    · exact .inl (hsame.symm.trans hmine)
    · rw [hnew] at hmine
      exact .inr ⟨rfl, (Option.some.inj hmine).symm, hnext⟩
  · rw [h.others other hne] at hmine
    exact .inl hmine

theorem Steps.apart (h : Steps w w' pid act) (hw : Apart w) (hopens : ¬ w.OpensAnother pid act) :
    Apart w' := by
  refine ⟨fun other file hmine => ?_, fun one other file hone hother => ?_,
    fun other mine held hheld => ?_⟩
  · rcases h.mine_cases hmine with hold | ⟨-, rfl, hnext⟩
    · exact (hw.known other file hold).trans_le h.mono
    · omega
  · rcases h.mine_cases hone with hold | ⟨hone', hfile, -⟩ <;>
      rcases h.mine_cases hother with hold' | ⟨hother', hfile', -⟩
    · exact hw.apart one other file hold hold'
    · exact absurd hfile' (hw.known one file hold).ne
    · exact absurd hfile (hw.known other file hold').ne
    · exact hone'.trans hother'.symm
  · by_cases hne : other = pid
    · subst hne
      rcases h.opened mine held hheld with hold | ⟨hphase, hact, hlock⟩
      · exact hw.own other mine held hold
      · by_contra hdiff
        exact hopens ⟨mine, held, hphase, hact, hlock, hdiff⟩
    · rw [h.others other hne] at hheld
      exact hw.own other mine held hheld

/-- **At most one live process holds the lock**, and it holds it with its own file, in every run in
which no open that follows a link finds another's file. -/
theorem one_passes (h : storeLock.Reach (fun w move => ¬ w.OpensAnother move.1 move.2) w) :
    (∀ pid other, w.Passes pid → w.Passes other → pid = other) ∧
      ∀ pid mine held, w.phase pid = .holding mine held → w.lock = some held → held = mine.file := by
  have hw : Apart w := h.invariant (fun _ => apart_start) fun w move w' hw hopens hnext =>
    (steps_of_next hnext).apart hw hopens
  refine ⟨fun pid other hpid hother => ?_, fun pid mine held hheld _ => hw.own pid mine held hheld⟩
  obtain ⟨-, mine, held, hphase, hlock⟩ := hpid
  obtain ⟨-, mine', held', hphase', hlock'⟩ := hother
  obtain rfl := Option.some.inj (hlock.symm.trans hlock')
  refine hw.apart pid other held ?_ ?_
  · rw [hphase, hw.own pid mine held hphase]
    rfl
  · rw [hphase', hw.own other mine' held hphase']
    rfl

/-! ### Two holders -/

/-- A root with the lock of a process that is dead. -/
def staleRoot : World where
  lock := some 0
  owners := fun _ => ⟨9, 100⟩
  nextFile := 1
  dead := fun pid => pid == 9

/-- One process takes the stale lock over. -/
def takeOver (pid : Nat) : List (Nat × Act) :=
  [(pid, .acquire pid), (pid, .call false), (pid, .call false), (pid, .call false),
    (pid, .call false), (pid, .call false), (pid, .call false), (pid, .call false),
    (pid, .call false)]

/-- One that judged the lock stale moves the lock of the next aside, before that one has opened it,
and a third takes the lock. -/
def displaced : List (Nat × Act) :=
  [(2, .acquire 2), (2, .call false), (2, .call false), (2, .call false)] ++ (takeOver 1).dropLast ++
    [(2, .call false), (3, .acquire 3), (3, .call false), (3, .call false), (1, .call false)]

instance (w : World) (pid : Nat) : Decidable (w.Passes pid) :=
  match hphase : w.phase pid with
  | .holding mine held =>
    decidable_of_iff (w.dead pid = false ∧ w.lock = some held)
      ⟨fun h => ⟨h.1, mine, held, hphase, h.2⟩, fun ⟨hdead, _, _, hheld, hlock⟩ =>
        ⟨hdead, (Phase.holding.inj (hphase.symm.trans hheld)).2 ▸ hlock⟩⟩
  | .idle | .link _ _ | .openLock _ | .readLock _ _ | .judge _ _ _ | .rename _ _ _ | .reread _ _ _
  | .rmAside _ _ | .putBack | .dropAside | .release _ | .unlink =>
    isFalse fun ⟨_, _, _, hheld, _⟩ => nomatch hphase.symm.trans hheld

/-- The check of a step for `OpensAnother`. -/
def opensAnother (w : World) (pid : Nat) (act : Act) : Bool :=
  match w.phase pid, act with
  | .openLock mine, .call false => w.lock.any (· != mine.file)
  | _, _ => false

theorem not_opensAnother_of (w : World) (move : Nat × Act)
    (h : (!opensAnother w move.1 move.2) = true) : ¬ w.OpensAnother move.1 move.2 := by
  rintro ⟨mine, held, hphase, hact, hlock, hdiff⟩
  simp [opensAnother, hphase, hact, hlock, hdiff] at h

/-- What one process takes over it holds alone. -/
theorem one_passes_takeOver : ∃ w : World, w.Passes 1 ∧
    (∀ pid other, w.Passes pid → w.Passes other → pid = other) ∧
      ∀ pid mine held, w.phase pid = .holding mine held → w.lock = some held → held = mine.file := by
  obtain ⟨w, hreach, hpasses⟩ := storeLock.exists_reach_of_exec staleRoot (takeOver 1)
    (fun w => w.Passes 1) (fun _ => rfl)
    (Machine.along_of_check _ not_opensAnother_of _ (by decide)) (by decide)
  exact ⟨w, of_decide_eq_true hpasses, one_passes hreach⟩

/-- **Two live processes hold the lock**, each with the file of the second open. -/
theorem two_pass : ∃ w : World, storeLock.Reach (fun _ _ => True) w ∧ w.Passes 1 ∧ w.Passes 3 := by
  obtain ⟨w, hreach, hpasses⟩ := storeLock.exists_reach_of_exec staleRoot displaced
    (fun w => w.Passes 1 && w.Passes 3) (fun _ => rfl)
    (Machine.along_of_forall (fun _ _ => trivial) _ _) (by decide)
  rw [Bool.and_eq_true, decide_eq_true_iff, decide_eq_true_iff] at hpasses
  exact ⟨w, hreach, hpasses⟩

end FileLock
end Store
end LaneBroker
