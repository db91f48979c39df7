/-
# What a lease of blobs is worth

An eviction reads the leases under the lock under which they are taken, so what a live lease
names is in its list for as long as it holds the lock, if it could read them: it takes a directory
that cannot be listed for one without leases, and a lease that it cannot read goes when it is a day
old.  And who finds a blob corrupt, or no file at its path, unlinks what is there then, without the
lock, and by then that can be a blob that was published since and answered (`not_forall_standing`).
In runs in which none of this meets a live lease or an intact blob (`SparesLeased`) what a have-query
answered stands until its lease expires, and no eviction takes away what a live extraction leases
(`answers_stand`).
-/

import LaneBroker.Runner.BlobStore

namespace LaneBroker
namespace Runner
namespace Blobs

open LaneBroker.Basis

variable {ν σ : Type} {cfg : Setup σ} {s s' : BlobStore ν σ} {i j : ℕ}

/-- The hashes that a reader is at. -/
def Access.shas : Access σ → List σ
  | .statted sha _ | .found sha _ => [sha]
  | .between | .publishing _ => []

/-- It is a have-query, or it has ended. -/
def Task.served : Task ν σ → Prop
  | .having .. | .done => True
  | _ => False

namespace BlobStore

/-- A have-query's lease on the hash is there. -/
def Leased (s : BlobStore ν σ) (sha : σ) (expiresAt : ℕ) : Prop :=
  ∃ l, .lease l ∈ s.leases ∧ sha ∈ l.hashes ∧ l.expiresAt = some expiresAt ∧
    (s.tasks l.file).served

/-- **What holds of a task**: its lease is there, or its eviction knows the live leases of its
victims. -/
def TaskOk (cfg : Setup σ) (s : BlobStore ν σ) (i : ℕ) : Task ν σ → Prop
  | .having _ hashes expiresAt access =>
    (∀ sha ∈ access.shas, sha ∈ hashes) ∧ (s.now < expiresAt →
      ∃ l, .lease l ∈ s.leases ∧ l.file = i ∧ l.hashes = hashes ∧ l.expiresAt = some expiresAt)
  | .extracting _ entries _ =>
    s.alive (cfg.pidOf i) = true ∧ ∃ l, .lease l ∈ s.leases ∧ l.file = i ∧
      l.pid = cfg.pidOf i ∧ l.hashes = cacheable entries ∧ l.expiresAt = none
  | .selected _ now => now ≤ s.now
  | .evicting held victims =>
    s.lock = some i ∧ ∀ v ∈ victims, ∀ l, .lease l ∈ s.leases → l.live s.alive s.now = true →
      v.sha ∈ l.hashes → v.sha ∈ held
  | .fresh | .clearing .. | .done => True

/-- **What every step keeps of the tasks.** -/
def TasksOk (cfg : Setup σ) (s : BlobStore ν σ) : Prop := ∀ i, s.TaskOk cfg i (s.tasks i)

/-- The processes, the leases, the lock and the clock are the same. -/
structure SameLeases (s s' : BlobStore ν σ) : Prop where
  now : s'.now = s.now
  leases : s'.leases = s.leases
  alive : s'.alive = s.alive
  lock : s'.lock = s.lock

theorem TaskOk.congr (h : SameLeases s s') {t : Task ν σ} (ht : s.TaskOk cfg i t) :
    s'.TaskOk cfg i t := by
  cases t with
  | fresh => trivial
  | done => trivial
  | clearing ns sha => trivial
  | _ => simpa only [TaskOk, h.now, h.leases, h.alive, h.lock] using ht

/-- **One task goes on**, and the leases are the same. -/
theorem TasksOk.moves (h : s.TasksOk cfg) (i : ℕ) (hsame : SameLeases s s')
    (hother : ∀ j, j ≠ i → s'.tasks j = s.tasks j) (hi : s.TaskOk cfg i (s'.tasks i)) :
    s'.TasksOk cfg := by
  intro j
  by_cases hj : j = i
  · exact hj ▸ hi.congr hsame
  · rw [hother j hj]
    exact (h j).congr hsame

/-- A lease that is live stays live when time passes backwards, and processes come back. -/
theorem live_of_later {l : Lease σ} {now now' : ℕ} {alive alive' : ℕ → Bool} (hnow : now ≤ now')
    (halive : ∀ p, alive' p = true → alive p = true) (h : l.live alive' now' = true) :
    l.live alive now = true := by
  unfold Lease.live at h ⊢
  cases hexpires : l.expiresAt with
  | none =>
    rw [hexpires] at h
    exact halive _ h
  | some e =>
    rw [hexpires] at h
    exact decide_eq_true (Nat.lt_of_le_of_lt hnow (of_decide_eq_true h))

theorem live_of_expiresAt {l : Lease σ} {now e : ℕ} {alive : ℕ → Bool}
    (hexpires : l.expiresAt = some e) (hlt : now < e) : l.live alive now = true := by
  unfold Lease.live
  rw [hexpires]
  exact decide_eq_true hlt

theorem live_of_alive {l : Lease σ} {now : ℕ} {alive : ℕ → Bool} (hexpires : l.expiresAt = none)
    (halive : alive l.pid = true) : l.live alive now = true := by
  unfold Lease.live
  rw [hexpires]
  exact halive

/-- **A task that stands still keeps what holds of it**, where time goes on, its live lease stays, and,
if it has the lock, no live lease is new. -/
theorem TaskOk.stays {t : Task ν σ} (ht : s.TaskOk cfg i t) (hnow : s.now ≤ s'.now)
    (halive : s.alive (cfg.pidOf i) = true → s'.alive (cfg.pidOf i) = true)
    (hown : ∀ l, .lease l ∈ s.leases → l.file = i → l.live s.alive s.now = true →
      .lease l ∈ s'.leases)
    (hlock : s.lock = some i → s'.lock = some i ∧ ∀ l, .lease l ∈ s'.leases →
      l.live s'.alive s'.now = true → .lease l ∈ s.leases ∧ l.live s.alive s.now = true) :
    s'.TaskOk cfg i t := by
  cases t with
  | fresh => trivial
  | done => trivial
  | clearing ns sha => trivial
  | selected victims now => exact Nat.le_trans ht hnow
  | having ns hashes expiresAt access =>
    refine ⟨ht.1, fun hlt => ?_⟩
    have hlt := Nat.lt_of_le_of_lt hnow hlt
    obtain ⟨l, hl, hfile, hhashes, hexpires⟩ := ht.2 hlt
    exact ⟨l, hown l hl hfile (live_of_expiresAt hexpires hlt), hfile, hhashes, hexpires⟩
  | extracting ns entries access =>
    obtain ⟨hal, l, hl, hfile, hpid, hhashes, hexpires⟩ := ht
    exact ⟨halive hal, l, hown l hl hfile (live_of_alive hexpires (hpid ▸ hal)), hfile, hpid,
      hhashes, hexpires⟩
  | evicting held victims =>
    obtain ⟨hheld, hback⟩ := hlock ht.1
    exact ⟨hheld, fun v hv l hl hlive => (hback l hl hlive).elim (ht.2 v hv l)⟩

section Reading

variable {l : Lease σ} {alive : ℕ → Bool} {now : ℕ} {unread : List ℕ} {files : List (LeaseFile σ)}

theorem mem_leasedHashes (hl : .lease l ∈ files) (hlive : l.live alive now = true)
    (hread : l.file ∉ unread) : l.hashes ⊆ leasedHashes alive now unread files := by
  intro sha hsha
  refine List.mem_flatMap.2 ⟨_, hl, ?_⟩
  simpa only [hread, hlive, not_false_eq_true, true_and, if_true] using hsha

/-- A live lease is kept, if it can be read or is not a day old. -/
theorem mem_keptLeases (hl : .lease l ∈ files) (hlive : l.live alive now = true)
    (hnew : l.file ∈ unread → stale now l.mtime = false) :
    .lease l ∈ keptLeases alive now unread files := by
  refine List.mem_filter.2 ⟨hl, ?_⟩
  dsimp only
  split_ifs with hunread
  · simp [hnew hunread]
  · exact hlive

/-- **No victim is left**, or every live lease could be read. -/
theorem read_of_not_blockAll (hl : .lease l ∈ files)
    (hnew : l.file ∈ unread → stale now l.mtime = false)
    (hgoes : blockAll now unread files = false) : l.file ∉ unread := by
  intro hunread
  refine absurd hgoes (Bool.not_eq_false _ ▸ List.any_eq_true.2 ⟨_, hl, ?_⟩)
  simp [hunread, hnew hunread]

end Reading

@[simp] theorem goes_tasks (t : Task ν σ) : (s.goes i t).tasks = Function.update s.tasks i t := rfl

@[simp] theorem goes_blobs (t : Task ν σ) : (s.goes i t).blobs = s.blobs := rfl

@[simp] theorem goes_answers (t : Task ν σ) : (s.goes i t).answers = s.answers := rfl

/-- A task that goes on, behind what changes blobs and answers only. -/
theorem TasksOk.goes (h : s.TasksOk cfg) {u : BlobStore ν σ} {t : Task ν σ} (hsame : SameLeases s u)
    (htasks : u.tasks = s.tasks) (ht : s.TaskOk cfg i t) : (u.goes i t).TasksOk cfg := by
  refine h.moves i ⟨hsame.now, hsame.leases, hsame.alive, hsame.lock⟩ (fun j hj => ?_) ?_
  · rw [goes_tasks, Function.update_of_ne hj, htasks]
  · rw [goes_tasks, Function.update_self]
    exact ht

theorem SameLeases.refl (s : BlobStore ν σ) : SameLeases s s := ⟨rfl, rfl, rfl, rfl⟩

/-- **A lease more**, while nobody holds the lock. -/
theorem TasksOk.leases (h : s.TasksOk cfg) (hlock : s.lock = none) (file : LeaseFile σ)
    {t : Task ν σ} (ht : ∀ u : BlobStore ν σ, u.leases = s.leases ++ [file] → u.now = s.now →
      u.alive = s.alive → u.TaskOk cfg i t) :
    TasksOk cfg { s.goes i t with leases := s.leases ++ [file] } := by
  intro j
  by_cases hj : j = i
  · subst hj
    dsimp only
    rw [goes_tasks, Function.update_self]
    exact ht _ rfl rfl rfl
  · dsimp only
    rw [goes_tasks, Function.update_of_ne hj]
    exact (h j).stays (Nat.le_refl _) id (fun _ hl _ _ => List.mem_append_left _ hl)
      fun hj => absurd (hlock.symm.trans hj) nofun

/-- **Leases fewer**, but none that is live or of another task. -/
theorem TasksOk.filter (h : s.TasksOk cfg) {leases : List (LeaseFile σ)} {lock : Option ℕ}
    {t : Task ν σ} (hsub : leases ⊆ s.leases) (hother : ∀ j, j ≠ i →
      ∀ l, .lease l ∈ s.leases → l.file = j → l.live s.alive s.now = true → .lease l ∈ leases)
    (hlock : ∀ j, j ≠ i → s.lock = some j → lock = some j)
    (ht : TaskOk cfg { s.goes i t with leases, lock } i t) :
    TasksOk cfg { s.goes i t with leases, lock } := by
  intro j
  by_cases hj : j = i
  · subst hj
    dsimp only
    rw [goes_tasks, Function.update_self]
    exact ht
  · dsimp only
    rw [goes_tasks, Function.update_of_ne hj]
    exact (h j).stays (Nat.le_refl _) id (hother j hj) fun hheld =>
      ⟨hlock j hj hheld, fun _ hl hlive => ⟨hsub hl, hlive⟩⟩

/-- **Time passes and processes die**: what is left of the tasks goes on with the same leases. -/
theorem TasksOk.later (h : s.TasksOk cfg) (hnow : s.now ≤ s'.now)
    (halive : ∀ p, s'.alive p = true → s.alive p = true)
    (hleases : ∀ l, .lease l ∈ s'.leases ↔ .lease l ∈ s.leases)
    (htasks : ∀ j, s'.tasks j = .done ∨ s'.tasks j = s.tasks j ∧
      (s.lock = some j → s'.lock = some j) ∧
      (s.alive (cfg.pidOf j) = true → s'.alive (cfg.pidOf j) = true)) : s'.TasksOk cfg := by
  intro j
  rcases htasks j with hdone | ⟨hsame, hlock, hlives⟩
  · rw [hdone]
    trivial
  rw [hsame]
  exact (h j).stays hnow hlives (fun l hl _ _ => (hleases l).2 hl) fun hheld =>
    ⟨hlock hheld, fun l hl hlive => ⟨(hleases l).1 hl, live_of_later hnow halive hlive⟩⟩

/-- **The condition** on the state before a step.  What is at the path of a blob that was found
corrupt, or to be no file, is not intact when it is unlinked.  And when an eviction reads the leases,
a directory of leases that cannot be listed has no live lease on a victim, and no live lease that
cannot be read is a day old. -/
def SparesLeased (s : BlobStore ν σ) : BlobAct ν σ → Prop
  | .settle i =>
    match s.tasks i with
    | .having ns _ _ (.found sha false) | .extracting ns _ (.found sha false) => ¬ s.Intact ns sha
    | _ => True
  | .clear i =>
    match s.tasks i with
    | .clearing ns sha => ¬ s.Intact ns sha
    | _ => True
  | .lock i listed unread =>
    match s.tasks i with
    | .selected victims now =>
      (listed = true → ∀ l, .lease l ∈ s.leases → l.live s.alive s.now = true →
        l.file ∈ unread → stale now l.mtime = false) ∧
      (listed = false → ∀ v ∈ victims, ∀ l, .lease l ∈ s.leases → l.live s.alive s.now = true →
        v.sha ∉ l.hashes)
    | _ => True
  | _ => True

section Steps

variable [DecidableEq ν] [DecidableEq σ]

theorem settled_same (ns : ν) (sha : σ) (hit : Bool) :
    SameLeases s (s.settled ns sha hit) ∧ (s.settled ns sha hit).tasks = s.tasks := by
  unfold settled
  split_ifs <;> exact ⟨⟨rfl, rfl, rfl, rfl⟩, rfl⟩

omit [DecidableEq ν] in
theorem answer_same (ns : ν) (sha : σ) (expiresAt : ℕ) :
    SameLeases s (s.answer ns sha expiresAt) ∧ (s.answer ns sha expiresAt).tasks = s.tasks := by
  unfold answer
  split_ifs <;> exact ⟨⟨rfl, rfl, rfl, rfl⟩, rfl⟩

theorem evictVictim_same (held : List σ) (v : Candidate ν σ) :
    SameLeases s (s.evictVictim held v) ∧ (s.evictVictim held v).tasks = s.tasks := by
  unfold evictVictim
  split_ifs
  · exact ⟨⟨rfl, rfl, rfl, rfl⟩, rfl⟩
  · split
    · exact ⟨⟨rfl, rfl, rfl, rfl⟩, rfl⟩
    · split_ifs <;> exact ⟨⟨rfl, rfl, rfl, rfl⟩, rfl⟩

omit [DecidableEq ν] in
theorem readBlob_shas (ns : ν) (sha : σ) (size : ℕ) (opens : Bool) :
    (s.readBlob cfg ns sha size opens).shas ⊆ [sha] := by
  unfold readBlob
  split_ifs
  · exact fun _ h => h
  · split
    · exact List.nil_subset _
    · exact fun _ h => h

/-- The step is one that only moves its task. -/
def Moves : BlobAct ν σ → Prop
  | .stat .. | .read .. | .publish .. | .finish _ | .spot .. | .select .. => True
  | _ => False

/-- **What such a step does**: the task is served if it was, and what holds of it holds again. -/
theorem goes_of_moves {a : BlobAct ν σ} (hnext : s.next cfg a = some s') (ha : Moves a) :
    ∃ i t t', s.tasks i = t ∧ s' = s.goes i t' ∧ (t.served → t'.served) ∧
      (s.TaskOk cfg i t → s.TaskOk cfg i t') := by
  cases a with
  | stat i sha =>
    simp only [next] at hnext
    split at hnext
    · rename_i ns hashes expiresAt htask
      split_ifs at hnext with hsha
      obtain ⟨f, -, rfl⟩ := Option.map_eq_some_iff.1 hnext
      exact ⟨i, _, _, htask, rfl, fun _ => trivial, fun hold =>
        ⟨fun sha' hsha' => List.mem_singleton.1 hsha' ▸ hsha, hold.2⟩⟩
    · cases hnext
  | read i sha size opens =>
    simp only [next] at hnext
    split at hnext
    · rename_i ns hashes expiresAt sha' size' htask
      split_ifs at hnext with hsame
      obtain rfl := Option.some.inj hnext
      obtain ⟨rfl, rfl⟩ := hsame
      exact ⟨i, _, _, htask, rfl, fun _ => trivial, fun hold =>
        ⟨fun sha' hsha' => hold.1 sha' (readBlob_shas ns sha size opens hsha'), hold.2⟩⟩
    · rename_i htask
      split_ifs at hnext
      obtain rfl := Option.some.inj hnext
      exact ⟨i, _, _, htask, rfl, False.elim, id⟩
    · cases hnext
  | publish i sha =>
    simp only [next] at hnext
    split at hnext
    · rename_i htask
      split_ifs at hnext
      obtain rfl := Option.some.inj hnext
      exact ⟨i, _, _, htask, rfl, False.elim, id⟩
    · cases hnext
  | finish i =>
    simp only [next] at hnext
    split at hnext
    · obtain rfl := Option.some.inj hnext
      exact ⟨i, _, _, rfl, rfl, fun _ => trivial, fun _ => trivial⟩
    · cases hnext
  | spot i ns sha =>
    simp only [next] at hnext
    split at hnext
    · rename_i htask
      split_ifs at hnext
      obtain rfl := Option.some.inj hnext
      exact ⟨i, _, _, htask, rfl, False.elim, fun _ => trivial⟩
    · cases hnext
  | select i start scanned totalShards candidates =>
    simp only [next] at hnext
    split at hnext
    · rename_i htask
      split_ifs at hnext with hstart
      obtain rfl := Option.some.inj hnext
      exact ⟨i, _, _, htask, rfl, False.elim, fun _ => hstart⟩
    · cases hnext
  | _ => exact ha.elim

/-- **Every step keeps what holds of the tasks.** -/
theorem tasksOk_next (h : s.TasksOk cfg) {a : BlobAct ν σ} (hok : SparesLeased s a)
    (hnext : s.next cfg a = some s') : s'.TasksOk cfg := by
  cases a with
  | stat _ _ | read _ _ _ _ | publish _ _ | finish _ | spot _ _ _ | select _ _ _ _ _ =>
    obtain ⟨i, t, t', rfl, rfl, -, ht⟩ := goes_of_moves hnext trivial
    exact h.goes (.refl s) rfl (ht (h i))
  | haveLease i ns hashes =>
    simp only [next] at hnext
    split at hnext
    · rename_i htask hlock
      split_ifs at hnext with halive
      obtain rfl := Option.some.inj hnext
      refine h.leases hlock _ fun u hleases hnow _ => ⟨nofun, fun _ => ?_⟩
      refine ⟨⟨i, cfg.pidOf i, hashes, s.now, some (s.now + haveLeaseTtlMs)⟩, ?_, rfl, rfl, rfl⟩
      rw [hleases]
      exact List.mem_append_right _ (List.mem_singleton_self _)
    · cases hnext
  | execLease i ns entries =>
    simp only [next] at hnext
    split at hnext
    · rename_i htask hlock
      split_ifs at hnext with halive
      obtain rfl := Option.some.inj hnext
      refine h.leases hlock _ fun u hleases hnow hsame => ⟨hsame ▸ halive, ?_⟩
      refine ⟨{ file := i, pid := cfg.pidOf i, hashes := cacheable entries, mtime := s.now }, ?_,
        rfl, rfl, rfl, rfl⟩
      rw [hleases]
      exact List.mem_append_right _ (List.mem_singleton_self _)
    · cases hnext
  | settle i =>
    simp only [next] at hnext
    split at hnext
    · rename_i ns hashes expiresAt sha hit htask
      obtain rfl := Option.some.inj hnext
      have hold := h i
      rw [htask] at hold
      obtain ⟨hsame, htasks⟩ := settled_same (s := s) ns sha hit
      have hmoved : TasksOk cfg ((s.settled ns sha hit).goes i
          (.having ns hashes expiresAt .between)) := h.goes hsame htasks ⟨nofun, hold.2⟩
      split_ifs
      · obtain ⟨hsame', htasks'⟩ := answer_same (s := (s.settled ns sha hit).goes i
          (.having ns hashes expiresAt .between)) ns sha expiresAt
        intro j
        rw [htasks']
        exact (hmoved j).congr hsame'
      · exact hmoved
    · rename_i ns entries sha hit htask
      obtain rfl := Option.some.inj hnext
      have hold := h i
      rw [htask] at hold
      obtain ⟨hsame, htasks⟩ := settled_same (s := s) ns sha hit
      exact h.goes hsame htasks hold
    · cases hnext
  | rename i =>
    simp only [next] at hnext
    split at hnext
    · rename_i ns entries sha htask
      obtain rfl := Option.some.inj hnext
      have hold := h i
      rw [htask] at hold
      refine h.moves i ⟨rfl, rfl, rfl, rfl⟩ (fun j hj => Function.update_of_ne hj _ _) ?_
      dsimp only
      rw [goes_tasks, Function.update_self]
      exact hold
    · cases hnext
  | release i =>
    simp only [next] at hnext
    split at hnext
    · rename_i htask hlock
      obtain rfl := Option.some.inj hnext
      refine h.filter (List.filter_subset_self _) (fun j hj l hl hfile _ => ?_)
        (fun _ _ h => h) trivial
      refine List.mem_filter.2 ⟨hl, ?_⟩
      simpa using hfile ▸ hj
    · cases hnext
  | clear i =>
    simp only [next] at hnext
    split at hnext
    · obtain rfl := Option.some.inj hnext
      exact h.goes ⟨rfl, rfl, rfl, rfl⟩ rfl trivial
    · cases hnext
  | lock i listed unread =>
    simp only [next] at hnext
    split at hnext
    · rename_i victims now htask hlock
      have hnow := h i
      rw [htask] at hnow
      simp only [SparesLeased, htask] at hok
      have hfree : ∀ j, j ≠ i → s.lock = some j → some i = some j := fun j _ hj =>
        absurd (hlock.symm.trans hj) nofun
      cases listed with
      | true =>
        obtain rfl := Option.some.inj hnext
        have hnew := hok.1 rfl
        refine h.filter (fun f hf => (List.mem_filter.1 hf).1) (fun j hj l hl _ hlive => ?_) hfree
          ⟨rfl, fun v hv l hl hlive hsha => ?_⟩
        · exact mem_keptLeases hl (live_of_later hnow (fun _ h => h) hlive) (hnew l hl hlive)
        · -- a victim is left, so no live lease failed to be read
          have hl := (List.mem_filter.1 hl).1
          by_cases hblock : blockAll now unread s.leases = true
          · simp [hblock] at hv
          · have hread := read_of_not_blockAll hl (hnew l hl hlive) (by simpa using hblock)
            exact mem_leasedHashes hl (live_of_later hnow (fun _ h => h) hlive) hread hsha
      | false =>
        obtain rfl := Option.some.inj hnext
        have hnone := hok.2 rfl
        exact h.filter (fun _ hf => hf) (fun _ _ _ hl _ _ => hl) hfree
          ⟨rfl, fun v hv l hl hlive hsha => absurd hsha (hnone v hv l hl hlive)⟩
    · cases hnext
  | evict i =>
    simp only [next] at hnext
    split at hnext
    · rename_i held v victims htask
      obtain rfl := Option.some.inj hnext
      have hold := h i
      rw [htask] at hold
      obtain ⟨hsame, htasks⟩ := evictVictim_same (s := s) held v
      exact h.goes hsame htasks ⟨hold.1, fun w hw => hold.2 w (List.mem_cons_of_mem _ hw)⟩
    · cases hnext
  | unlock i =>
    simp only [next] at hnext
    split at hnext
    · rename_i held htask
      obtain rfl := Option.some.inj hnext
      have hold := h i
      rw [htask] at hold
      refine h.filter (fun _ hf => hf) (fun _ _ _ hl _ _ => hl) (fun j hj hlock => ?_) trivial
      exact absurd (Option.some.inj (hlock.symm.trans hold.1)) hj
    · cases hnext
  | die pid =>
    obtain rfl := Option.some.inj hnext
    refine h.later (Nat.le_refl _) (fun p hp => ?_) (fun _ => Iff.rfl) fun j => ?_
    · by_cases hpid : p = pid
      · simp [hpid] at hp
      · simpa [Function.update_of_ne hpid] using hp
    · by_cases hpid : cfg.pidOf j = pid
      · exact .inl (if_pos hpid)
      · refine .inr ⟨if_neg hpid, fun hlock => ?_, fun hal => ?_⟩
        · simp [hlock, hpid]
        · simpa [Function.update_of_ne hpid] using hal
  | tick ms =>
    obtain rfl := Option.some.inj hnext
    exact h.later (Nat.le_add_right _ _) (fun _ hp => hp) (fun _ => Iff.rfl)
      fun _ => .inr ⟨rfl, fun hlock => hlock, fun hal => hal⟩
  | damage ns sha file =>
    obtain rfl := Option.some.inj hnext
    exact fun j => (h j).congr ⟨rfl, rfl, rfl, rfl⟩
  | unreadable =>
    obtain rfl := Option.some.inj hnext
    refine h.later (Nat.le_refl _) (fun _ hp => hp) (fun l => ?_)
      fun _ => .inr ⟨rfl, fun hlock => hlock, fun hal => hal⟩
    simp

/-! ### What a have-query answered -/

/-- **Every answer stands** until its lease expires. -/
def Standing (s : BlobStore ν σ) : Prop :=
  ∀ a ∈ s.answers, s.now < a.expiresAt → s.Intact a.ns a.sha ∧ s.Leased a.sha a.expiresAt

omit [DecidableEq ν] [DecidableEq σ] in
/-- **Answers stand** where no blob of theirs goes and no lease of theirs. -/
theorem Standing.moves (hs : s.Standing) (hnow : s.now ≤ s'.now)
    (hanswers : s'.answers ⊆ s.answers)
    (hintact : ∀ a ∈ s'.answers, s.now < a.expiresAt → s.Leased a.sha a.expiresAt →
      s.Intact a.ns a.sha → s'.Intact a.ns a.sha)
    (hleases : ∀ l e, .lease l ∈ s.leases → l.expiresAt = some e → s.now < e →
      (s.tasks l.file).served → .lease l ∈ s'.leases)
    (hserved : ∀ j, (s.tasks j).served → (s'.tasks j).served) : s'.Standing := by
  intro a ha hlt
  have hlt := Nat.lt_of_le_of_lt hnow hlt
  obtain ⟨hblob, l, hl, hsha, hexpires, hfile⟩ := hs a (hanswers ha) hlt
  exact ⟨hintact a ha hlt ⟨l, hl, hsha, hexpires, hfile⟩ hblob, l,
    hleases l _ hl hexpires hlt hfile, hsha, hexpires, hserved _ hfile⟩

omit [DecidableEq ν] [DecidableEq σ] in
theorem served_update {t : Task ν σ} (h : (s.tasks i).served → t.served) (j : ℕ)
    (hj : (s.tasks j).served) : (Function.update s.tasks i t j).served := by
  by_cases hij : j = i
  · subst hij
    rw [Function.update_self]
    exact h hj
  · rwa [Function.update_of_ne hij]

omit [DecidableEq ν] [DecidableEq σ] in
/-- A task that is no have-query and goes on: the blobs are the same. -/
theorem Standing.goes (hs : s.Standing) {t : Task ν σ} (h : (s.tasks i).served → t.served) :
    (s.goes i t).Standing :=
  hs.moves (Nat.le_refl _) (fun _ ha => ha) (fun _ _ _ _ hblob => hblob)
    (fun _ _ hl _ _ _ => hl) (served_update h)

/-- A blob that is touched or written is intact if it was. -/
theorem intact_update {ns ns' : ν} {sha sha' : σ} {file : Option (BlobFile σ)}
    (hfile : (ns', sha') = (ns, sha) → file.bind BlobFile.content = some sha)
    (h : s.Intact ns' sha') :
    (Function.update s.blobs (ns, sha) file (ns', sha')).bind BlobFile.content = some sha' := by
  by_cases hkey : (ns', sha') = (ns, sha)
  · rw [hkey, Function.update_self, hfile hkey, (Prod.mk.inj hkey).2]
  · rw [Function.update_of_ne hkey]
    exact h

/-- **The end of a read spares what is intact**, unless it unlinks it. -/
theorem intact_settled {ns ns' : ν} {sha sha' : σ} {hit : Bool}
    (hspares : hit = false → ¬ s.Intact ns sha) (h : s.Intact ns' sha') :
    (s.settled ns sha hit).Intact ns' sha' := by
  unfold settled
  cases hit with
  | true =>
    refine intact_update (fun hkey => ?_) h
    obtain ⟨rfl, rfl⟩ := Prod.mk.inj hkey
    simpa [Intact, Option.bind_map, Function.comp_def] using h
  | false =>
    refine intact_update (fun hkey => ?_) h
    obtain ⟨rfl, rfl⟩ := Prod.mk.inj hkey
    exact absurd h (hspares rfl)

/-- **An eviction spares what it knows to be leased.** -/
theorem evictVictim_spares {held : List σ} {v : Candidate ν σ} {ns : ν} {sha : σ}
    (hsha : v.sha = sha → sha ∈ held) : (s.evictVictim held v).blobs (ns, sha) = s.blobs (ns, sha) := by
  unfold evictVictim
  split_ifs with hv
  · rfl
  · have hne : (ns, sha) ≠ (v.ns, v.sha) := fun hkey => by
      obtain ⟨-, rfl⟩ := Prod.mk.inj hkey
      exact hv (hsha rfl)
    split
    · rfl
    · split_ifs
      · rfl
      · exact Function.update_of_ne hne _ _

/-- A reader that settles. -/
theorem Standing.settled (hs : s.Standing) {ns : ν} {sha : σ} {hit : Bool} {t : Task ν σ}
    (hspares : hit = false → ¬ s.Intact ns sha) (ht : (s.tasks i).served → t.served) :
    ((s.settled ns sha hit).goes i t).Standing := by
  obtain ⟨hsame, htasks⟩ := settled_same (s := s) ns sha hit
  have hanswers : (s.settled ns sha hit).answers = s.answers := by
    unfold BlobStore.settled
    split_ifs <;> rfl
  refine hs.moves (Nat.le_of_eq hsame.now.symm) (fun a ha => hanswers ▸ ha)
    (fun _ _ _ _ hblob => intact_settled hspares hblob)
    (fun l _ hl _ _ _ => ?_) fun j hj => ?_
  · exact hsame.leases.symm ▸ hl
  · rw [goes_tasks, htasks]
    exact served_update ht j hj

omit [DecidableEq ν] in
/-- A have-query that answers: its lease is there. -/
theorem Standing.answer (hs : s.Standing) {ns : ν} {sha : σ} {expiresAt : ℕ}
    (hleased : s.now < expiresAt → s.Leased sha expiresAt) :
    (s.answer ns sha expiresAt).Standing := by
  unfold BlobStore.answer
  split_ifs with hintact
  · intro a ha hlt
    rcases List.mem_append.1 ha with ha | ha
    · exact hs a ha hlt
    · obtain rfl := List.mem_singleton.1 ha
      exact ⟨hintact, hleased hlt⟩
  · exact hs

/-- **Every step keeps the answers**, where no reader unlinks an intact blob. -/
theorem standing_next (h : s.TasksOk cfg) (hs : s.Standing) {a : BlobAct ν σ}
    (hok : SparesLeased s a) (hnext : s.next cfg a = some s') : s'.Standing := by
  cases a with
  | stat _ _ | read _ _ _ _ | publish _ _ | finish _ | spot _ _ _ | select _ _ _ _ _ =>
    obtain ⟨i, t, t', rfl, rfl, hserved, -⟩ := goes_of_moves hnext trivial
    exact hs.goes hserved
  | haveLease i ns hashes =>
    simp only [next] at hnext
    split at hnext
    · rename_i htask hlock
      split_ifs at hnext
      obtain rfl := Option.some.inj hnext
      exact hs.moves (Nat.le_refl _) (fun _ ha => ha) (fun _ _ _ _ hblob => hblob)
        (fun _ _ hl _ _ _ => List.mem_append_left _ hl) (served_update fun _ => trivial)
    · cases hnext
  | execLease i ns entries =>
    simp only [next] at hnext
    split at hnext
    · rename_i htask hlock
      split_ifs at hnext
      obtain rfl := Option.some.inj hnext
      exact hs.moves (Nat.le_refl _) (fun _ ha => ha) (fun _ _ _ _ hblob => hblob)
        (fun _ _ hl _ _ _ => List.mem_append_left _ hl)
        (served_update fun hserved => by rw [htask] at hserved; exact hserved.elim)
    · cases hnext
  | settle i =>
    simp only [next] at hnext
    simp only [SparesLeased] at hok
    split at hnext
    · rename_i ns hashes expiresAt sha hit htask
      obtain rfl := Option.some.inj hnext
      have hspares : hit = false → ¬ s.Intact ns sha := by
        rintro rfl
        simpa only [htask] using hok
      have hsettled : ((s.settled ns sha hit).goes i
          (.having ns hashes expiresAt .between)).Standing := hs.settled hspares fun _ => trivial
      split_ifs
      · refine hsettled.answer fun hlt => ?_
        obtain ⟨hsame, -⟩ := settled_same (s := s) ns sha hit
        have hold := h i
        rw [htask] at hold
        have hnow : s.now < expiresAt := hsame.now ▸ hlt
        obtain ⟨l, hl, rfl, hhashes, hexpires⟩ := hold.2 hnow
        refine ⟨l, hsame.leases.symm ▸ hl, hhashes ▸ hold.1 sha (List.mem_singleton_self _),
          hexpires, ?_⟩
        rw [goes_tasks, Function.update_self]
        trivial
      · exact hsettled
    · rename_i ns entries sha hit htask
      obtain rfl := Option.some.inj hnext
      refine hs.settled (fun hhit => ?_) fun hserved => by rw [htask] at hserved; exact hserved.elim
      subst hhit
      simpa only [htask] using hok
    · cases hnext
  | rename i =>
    simp only [next] at hnext
    split at hnext
    · rename_i htask
      obtain rfl := Option.some.inj hnext
      exact hs.moves (Nat.le_refl _) (fun _ ha => ha)
        (fun _ _ _ _ hblob => intact_update (fun _ => rfl) hblob) (fun _ _ hl _ _ _ => hl)
        (served_update fun hserved => by rw [htask] at hserved; exact hserved.elim)
    · cases hnext
  | release i =>
    simp only [next] at hnext
    split at hnext
    · rename_i htask hlock
      obtain rfl := Option.some.inj hnext
      refine hs.moves (Nat.le_refl _) (fun _ ha => ha) (fun _ _ _ _ hblob => hblob)
        (fun l _ hl _ _ hfile => List.mem_filter.2 ⟨hl, ?_⟩) (served_update fun _ => trivial)
      have hne : l.file ≠ i := fun heq => by
        rw [heq, htask] at hfile
        exact hfile
      simpa using hne
    · cases hnext
  | clear i =>
    simp only [next] at hnext
    split at hnext
    · rename_i ns sha htask
      obtain rfl := Option.some.inj hnext
      simp only [SparesLeased, htask] at hok
      refine hs.moves (Nat.le_refl _) (fun _ ha => ha) (fun _ _ _ _ hblob => ?_)
        (fun _ _ hl _ _ _ => hl)
        (served_update fun hserved => by rw [htask] at hserved; exact hserved.elim)
      exact show (s.settled ns sha false).Intact _ _ from intact_settled (fun _ => hok) hblob
    · cases hnext
  | lock i listed unread =>
    simp only [next] at hnext
    split at hnext
    · rename_i victims now htask hlock
      have hnow := h i
      rw [htask] at hnow
      simp only [SparesLeased, htask] at hok
      have hserved : ∀ t : Task ν σ, (s.tasks i).served → t.served := fun t hserved => by
        rw [htask] at hserved
        exact hserved.elim
      cases listed with
      | true =>
        obtain rfl := Option.some.inj hnext
        refine hs.moves (Nat.le_refl _) (fun _ ha => ha) (fun _ _ _ _ hblob => hblob)
          (fun l _ hl hexpires hlt _ => ?_) (served_update (hserved _))
        exact mem_keptLeases hl (live_of_expiresAt hexpires (Nat.lt_of_le_of_lt hnow hlt))
          (hok.1 rfl l hl (live_of_expiresAt hexpires hlt))
      | false =>
        obtain rfl := Option.some.inj hnext
        exact hs.moves (Nat.le_refl _) (fun _ ha => ha) (fun _ _ _ _ hblob => hblob)
          (fun _ _ hl _ _ _ => hl) (served_update (hserved _))
    · cases hnext
  | evict i =>
    simp only [next] at hnext
    split at hnext
    · rename_i held v victims htask
      obtain rfl := Option.some.inj hnext
      obtain ⟨hsame, htasks⟩ := evictVictim_same (s := s) held v
      have hanswers : (s.evictVictim held v).answers = s.answers := by
        unfold evictVictim
        split_ifs
        · rfl
        · split
          · rfl
          · split_ifs <;> rfl
      have hold := h i
      rw [htask] at hold
      refine hs.moves (Nat.le_of_eq hsame.now.symm) (fun a ha => hanswers ▸ ha)
        (fun a _ hlt hleased hblob => ?_)
        (fun l _ hl _ _ _ => hsame.leases.symm ▸ hl) fun j hj => ?_
      · -- the lease of the answer is live, so the eviction knows it
        obtain ⟨l, hl, hsha, hexpires, -⟩ := hleased
        have hheld : v.sha = a.sha → a.sha ∈ held := fun hv => hv ▸
          hold.2 v List.mem_cons_self l hl (live_of_expiresAt hexpires hlt) (hv ▸ hsha)
        have hfile : (s.evictVictim held v).blobs (a.ns, a.sha) = s.blobs (a.ns, a.sha) :=
          evictVictim_spares hheld
        exact (congrArg (Option.bind · BlobFile.content) hfile).trans hblob
      · rw [goes_tasks, htasks]
        exact served_update (fun hserved => by rw [htask] at hserved; exact hserved.elim) j hj
    · cases hnext
  | unlock i =>
    simp only [next] at hnext
    split at hnext
    · obtain rfl := Option.some.inj hnext
      exact hs.moves (Nat.le_refl _) (fun _ ha => ha) (fun _ _ _ _ hblob => hblob)
        (fun _ _ hl _ _ _ => hl) (served_update fun _ => trivial)
    · cases hnext
  | die pid =>
    obtain rfl := Option.some.inj hnext
    refine hs.moves (Nat.le_refl _) (fun _ ha => ha) (fun _ _ _ _ hblob => hblob)
      (fun _ _ hl _ _ _ => hl) fun j hj => ?_
    dsimp only
    split_ifs
    · trivial
    · exact hj
  | tick ms =>
    obtain rfl := Option.some.inj hnext
    exact hs.moves (Nat.le_add_right _ _) (fun _ ha => ha) (fun _ _ _ _ hblob => hblob)
      (fun _ _ hl _ _ _ => hl) fun _ hj => hj
  | damage ns sha file =>
    obtain rfl := Option.some.inj hnext
    refine hs.moves (Nat.le_refl _) (List.filter_subset_self _) (fun a ha _ _ hblob => ?_)
      (fun _ _ hl _ _ _ => hl) fun _ hj => hj
    refine intact_update (fun hkey => ?_) hblob
    have hnot := of_decide_eq_true (List.mem_filter.1 ha).2
    exact absurd (Prod.mk.inj hkey) hnot
  | unreadable =>
    obtain rfl := Option.some.inj hnext
    exact hs.moves (Nat.le_refl _) (fun _ ha => ha) (fun _ _ _ _ hblob => hblob)
      (fun _ _ hl _ _ _ => List.mem_append_left _ hl) fun _ hj => hj

end Steps

end BlobStore

variable [DecidableEq ν] [DecidableEq σ]

open BlobStore

/-- **What the leases are worth.**  In every run in which no intact blob is unlinked as corrupt or as
junk, and every live lease that matters is read: what a have-query answered is there and intact until
its lease expires; and no eviction takes a blob away that an extraction leases, neither under the
lock nor in its scan. -/
theorem answers_stand (cfg : Setup σ) (s : BlobStore ν σ)
    (hs : (blobStore cfg).Reach SparesLeased s) :
    (∀ a ∈ s.answers, s.now < a.expiresAt → s.Intact a.ns a.sha) ∧
    ∀ j ns entries access, s.tasks j = .extracting ns entries access →
      ∀ sha ∈ cacheable entries, ∀ ns' i s',
        (s.next cfg (.evict i) = some s' → s'.blobs (ns', sha) = s.blobs (ns', sha)) ∧
        (s.SparesLeased (.clear i) → s.next cfg (.clear i) = some s' → s.Intact ns' sha →
          s'.Intact ns' sha) := by
  have hinv : s.TasksOk cfg ∧ s.Standing := by
    refine hs.invariant (P := fun s => s.TasksOk cfg ∧ s.Standing) (fun s hs => ⟨fun i => ?_, ?_⟩)
      fun s a s' hs hok hnext => ⟨tasksOk_next hs.1 hok hnext, standing_next hs.1 hs.2 hok hnext⟩
    · rw [hs.1 i]
      trivial
    · intro a ha
      rw [hs.2.2] at ha
      cases ha
  refine ⟨fun a ha hlt => (hinv.2 a ha hlt).1, fun j ns entries access hj sha hsha ns' i s' =>
    ⟨fun hnext => ?_, fun hok hnext hintact => ?_⟩⟩
  · simp only [BlobStore.next] at hnext
    split at hnext
    · rename_i held v victims htask
      obtain rfl := Option.some.inj hnext
      have hevicting := hinv.1 i
      rw [htask] at hevicting
      have hextracting := hinv.1 j
      rw [hj] at hextracting
      obtain ⟨halive, l, hl, -, hpid, hhashes, hexpires⟩ := hextracting
      refine evictVictim_spares fun hv => hv ▸ ?_
      exact hevicting.2 v List.mem_cons_self l hl (live_of_alive hexpires (hpid ▸ halive))
        (hhashes ▸ hv ▸ hsha)
    · cases hnext
  · simp only [BlobStore.next] at hnext
    split at hnext
    · rename_i ns₀ sha₀ htask
      obtain rfl := Option.some.inj hnext
      simp only [SparesLeased, htask] at hok
      exact show (s.settled ns₀ sha₀ false).Intact _ _ from intact_settled (fun _ => hok) hintact
    · cases hnext

/-- Blob 5 has ten thousand bytes, and all others are short; every task is a process. -/
def smallSetup : Setup ℕ where
  sizeOf c := if c = 5 then 10000 else 1
  pidOf i := i
  maxBytes := 0
  maxAgeMs := 1000

/-- A blob is published, a have-query answers it, and an eviction that chose it leaves it. -/
def leasedInTime : List (BlobAct ℕ ℕ) :=
  [.execLease 1 0 [(5, 10000)], .publish 1 5, .rename 1, .release 1,
    .select 4 0 1 1 [{ ns := 0, sha := 5, size := 10000, mtime := 0 }],
    .haveLease 3 0 [5], .stat 3 5, .read 3 5 10000 true, .settle 3, .finish 3,
    .lock 4 true [], .evict 4, .unlock 4]

/-- Nothing is unlinked as corrupt or as junk, and every lease is read. -/
def orderly (s : BlobStore ℕ ℕ) : BlobAct ℕ ℕ → Bool
  | .settle i =>
    match s.tasks i with
    | .having _ _ _ (.found _ false) | .extracting _ _ (.found _ false) => false
    | _ => true
  | .clear _ => false
  | .lock _ listed unread => listed && unread.isEmpty
  | _ => true

theorem sparesLeased_of_orderly {s : BlobStore ℕ ℕ} {a : BlobAct ℕ ℕ} (h : orderly s a = true) :
    SparesLeased s a := by
  cases a with
  | settle i =>
    simp only [orderly] at h
    simp only [SparesLeased]
    split
    · rename_i htask
      simp [htask] at h
    · rename_i htask
      simp [htask] at h
    · trivial
  | clear i => cases h
  | lock i listed unread =>
    simp only [orderly, Bool.and_eq_true, List.isEmpty_iff] at h
    obtain ⟨rfl, rfl⟩ := h
    simp only [SparesLeased]
    split
    · exact ⟨fun _ _ _ _ hunread => absurd hunread List.not_mem_nil, nofun⟩
    · trivial
  | _ => trivial

theorem answers_stand_leasedInTime : ∃ s : BlobStore ℕ ℕ,
    (blobStore smallSetup).Reach SparesLeased s ∧
      s.answers = [{ ns := 0, sha := 5, expiresAt := 600000 }] ∧ s.tasks 4 = .done ∧
        s.Intact 0 5 := by
  have hok : (blobStore smallSetup).Along SparesLeased {} leasedInTime :=
    Machine.along_of_check orderly (fun _ _ => sparesLeased_of_orderly) leasedInTime
      (by decide +kernel)
  obtain ⟨s, hs, hp⟩ := (blobStore smallSetup).exists_reach_of_exec {} leasedInTime
    (fun s => decide (s.answers = [{ ns := 0, sha := 5, expiresAt := 600000 }] ∧
      s.tasks 4 = .done ∧ s.now = 0)) ⟨fun _ => rfl, rfl, rfl⟩ hok (by decide +kernel)
  obtain ⟨hanswers, hdone, hnow⟩ := of_decide_eq_true hp
  have hmem : { ns := 0, sha := 5, expiresAt := 600000 } ∈ s.answers := by
    rw [hanswers]
    exact List.mem_singleton_self _
  exact ⟨s, hs, hanswers, hdone,
    (answers_stand smallSetup s hs).1 _ hmem (by rw [hnow]; decide)⟩

/-- A blob is truncated on the disk and a reader finds it so; it is published again, and a
have-query answers it; then the reader unlinks what it takes for the corrupt blob. -/
def unlinkedTooLate : List (BlobAct ℕ ℕ) :=
  [.damage 0 5 (some { content := some 9, mtime := 0 }),
    .execLease 1 0 [(5, 10000)], .read 1 5 10000 true,
    .execLease 2 0 [(5, 10000)], .publish 2 5, .rename 2,
    .haveLease 3 0 [5], .stat 3 5, .read 3 5 10000 true, .settle 3,
    .settle 1]

/-- An extraction has published a blob that it leases, and an eviction that chose it cannot list the
leases. -/
def unlisted : List (BlobAct ℕ ℕ) :=
  [.execLease 1 0 [(5, 10000)], .publish 1 5, .rename 1,
    .select 4 0 1 1 [{ ns := 0, sha := 5, size := 10000, mtime := 0 }], .lock 4 false []]

/-- **A blob that was answered does not always stand**, and one that is leased can be evicted. -/
theorem not_forall_standing :
    (¬ ∀ (cfg : Setup ℕ) (s : BlobStore ℕ ℕ), (blobStore cfg).Reach (fun _ _ => True) s →
      ∀ a ∈ s.answers, s.now < a.expiresAt → s.Intact a.ns a.sha) ∧
    ¬ ∀ (cfg : Setup ℕ) (s : BlobStore ℕ ℕ), (blobStore cfg).Reach (fun _ _ => True) s →
      ∀ j ns entries access, s.tasks j = .extracting ns entries access →
        ∀ sha ∈ cacheable entries, ∀ ns' i s', s.next cfg (.evict i) = some s' →
          s'.blobs (ns', sha) = s.blobs (ns', sha) := by
  constructor
  · intro hall
    have hok : (blobStore smallSetup).Along (fun _ _ => True) {} unlinkedTooLate :=
      Machine.along_of_forall (fun _ _ => trivial) unlinkedTooLate _
    obtain ⟨s, hs, hp⟩ := (blobStore smallSetup).exists_reach_of_exec {} unlinkedTooLate
      (fun s => decide (s.answers = [{ ns := 0, sha := 5, expiresAt := 600000 }] ∧
        s.now = 0 ∧ s.blobs (0, 5) = none)) ⟨fun _ => rfl, rfl, rfl⟩ hok (by decide +kernel)
    obtain ⟨hanswers, hnow, hgone⟩ := of_decide_eq_true hp
    have hmem : { ns := 0, sha := 5, expiresAt := 600000 } ∈ s.answers := by
      rw [hanswers]
      exact List.mem_singleton_self _
    have hintact := hall smallSetup s hs _ hmem (by rw [hnow]; decide)
    simp [Intact, hgone] at hintact
  · intro hall
    have hok : (blobStore smallSetup).Along (fun _ _ => True) {} unlisted :=
      Machine.along_of_forall (fun _ _ => trivial) unlisted _
    obtain ⟨s, hs, hp⟩ := (blobStore smallSetup).exists_reach_of_exec {} unlisted
      (fun s => decide (s.tasks 1 = .extracting 0 [(5, 10000)] .between ∧
        s.blobs (0, 5) ≠ none ∧ (s.next smallSetup (.evict 4)).any
          fun s' => (s'.blobs (0, 5)).isNone)) ⟨fun _ => rfl, rfl, rfl⟩ hok (by decide +kernel)
    obtain ⟨htask, hthere, hgone⟩ := of_decide_eq_true hp
    obtain ⟨s', hnext, hnone⟩ := (Option.any_eq_true _ _).1 hgone
    have hkept := hall smallSetup s hs 1 0 _ _ htask 5 (by decide) 0 4 s' hnext
    rw [Option.isNone_iff_eq_none.1 hnone] at hkept
    exact hthere hkept.symm

end Blobs
end Runner
end LaneBroker
