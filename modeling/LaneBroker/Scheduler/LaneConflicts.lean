/-
# Lanes that may not run beside each other

The `conflicts` of a repository's lane configuration are pairs of lane names, a `*` standing
for every lane.  `resolveTicketConfig` expands them once for each ticket, over the declared
lanes and the ticket's own, and the scheduler looks at what the candidate sees of the held
leases, never the other way round.  So what a lane sees has to be all it conflicts with, and
that fails in two ways (`Hidden`): a `*` does not reach an undeclared lane but from that
lane's own side, and two lanes whose names are sanitized to one key look like one lane, which
may run as often as it says.

`apart_of_sighted` is about runs: while no ticket is evaluated beside a lease that is hidden
from it, no two lanes that conflict are held together.
-/

import LaneBroker.Basis.JsText
import LaneBroker.Basis.OrderedMap
import LaneBroker.Scheduler.Held
import Mathlib.Data.List.Induction

namespace LaneBroker
namespace Scheduler

open LaneBroker.Basis

/-! ### The configuration -/

/-- **An entry of a conflict pair**: a name, or another value, of which the loader asks nothing. -/
inductive ConflictEntry
  | name (s : JsString)
  /-- Which value it is, and its text. -/
  | other (value : ℕ) (text : JsString)
  deriving DecidableEq, Repr

namespace ConflictEntry

/-- `'*'`. -/
def star : ConflictEntry := .name (js "*")

/-- `String(entry)`. -/
def text : ConflictEntry → JsString
  | name s => s
  | other _ text => text

end ConflictEntry

/-- `undeclaredLanes`. -/
inductive UndeclaredLanes
  | refuse
  | allow
  /-- `{"as": …}`. -/
  | like (template : JsString)
  deriving DecidableEq, Repr

/-- **A lane configuration**, as the loader returns it. -/
structure RepoConfig where
  /-- There is a file. -/
  declared : Bool := true
  /-- `Object.keys(lanes)`: those of the file, and the built-in `default`. -/
  lanes : List JsString
  fileLanes : List JsString
  fileLanes_subset : ∀ x ∈ fileLanes, x ∈ lanes
  /-- `maxConcurrent` of a lane that sets it. -/
  maxConcurrent : JsString → Option ℤ := fun _ => none
  conflicts : List (ConflictEntry × ConflictEntry) := []
  undeclaredLanes : UndeclaredLanes := .refuse

/-! ### The expansion -/

/-- The map of `expandConflicts`. -/
abbrev Adjacency := OrderedMap ConflictEntry (List ConflictEntry)

namespace Adjacency

/-- `adj.get(x)`. -/
def neighbours (adj : Adjacency) (x : ConflictEntry) : List ConflictEntry := (adj.get x).getD []

/-- `if (!adj.has(x)) adj.set(x, new Set())`. -/
def ensure (adj : Adjacency) (x : ConflictEntry) : Adjacency :=
  if (adj.get x).isSome then adj else adj.set x []

/-- `adj.get(x).add(y)`. -/
def add (adj : Adjacency) (x y : ConflictEntry) : Adjacency :=
  adj.set x (if y ∈ adj.neighbours x then adj.neighbours x else adj.neighbours x ++ [y])

/-- The body of the inner loop. -/
def link (adj : Adjacency) (x y : ConflictEntry) : Adjacency :=
  if x = y then adj else (((adj.ensure x).ensure y).add x y).add y x

end Adjacency

/-- What an entry stands for. -/
def sideOf (laneNames : List JsString) (entry : ConflictEntry) : List ConflictEntry :=
  if entry = .star then laneNames.map .name else [entry]

/-- **`expandConflicts`.** -/
def expandConflicts (conflicts : List (ConflictEntry × ConflictEntry)) (laneNames : List JsString) :
    Adjacency :=
  conflicts.foldl
    (fun adj pair =>
      (sideOf laneNames pair.1).foldl
        (fun adj x => (sideOf laneNames pair.2).foldl (fun adj y => adj.link x y) adj) adj)
    (OrderedMap.empty.setAll (laneNames.map fun n => (.name n, [])))

/-! ### The ticket -/

/-- The characters that `sanitizeKey` keeps. -/
def keptInKey (c : UInt16) : Bool :=
  (0x41 ≤ c && c ≤ 0x5a) || (0x61 ≤ c && c ≤ 0x7a) || (0x30 ≤ c && c ≤ 0x39) ||
    c == 0x5f || c == 0x2e || c == 0x2d

/-- `sanitizeKey`. -/
def sanitizeKey (raw : JsString) : JsString :=
  let s := raw.map fun c => if keptInKey c then c else 0x5f
  if s.length = 0 then [0x5f] else s

/-- What the conflicts read of `resolveTicketConfig`. -/
structure ResolvedLane where
  key : JsString
  conflicts : List JsString
  maxConcurrent : ℤ
  deriving DecidableEq, Repr

namespace RepoConfig

variable (cfg : RepoConfig)

def undeclaredTemplateName : Option JsString :=
  match cfg.undeclaredLanes with
  | .like template => some template
  | _ => none

def undeclaredAllowed : Bool :=
  cfg.undeclaredLanes = .allow || cfg.undeclaredTemplateName.isSome

def isDeclaredLane (laneName : JsString) : Bool :=
  laneName ∈ cfg.fileLanes ||
    (laneName ∈ cfg.lanes &&
      (cfg.undeclaredTemplateName = none || cfg.undeclaredTemplateName = some laneName))

/-- The names that a `*` stands for in a ticket of the lane. -/
def laneNames (laneName : JsString) : List JsString :=
  if cfg.isDeclaredLane laneName then cfg.lanes else cfg.lanes ++ [laneName]

/-- `maxConcurrent` of a ticket of the lane, which no lane inherits. -/
def maxConcurrentOf (laneName : JsString) : ℤ :=
  if cfg.isDeclaredLane laneName then (cfg.maxConcurrent laneName).getD 1 else 1

/-- The key of a lane of the repository. -/
def keyOf (repoId laneName : JsString) : JsString := repoId ++ js ":" ++ sanitizeKey laneName

/-- `resolveTicketConfig`, of a lane that has a name; `none` is the error for an unknown lane. -/
def resolveTicketConfig (repoId laneName : JsString) : Option ResolvedLane :=
  if cfg.declared && !cfg.isDeclaredLane laneName && !cfg.undeclaredAllowed then none
  else
    let adj := expandConflicts cfg.conflicts (cfg.laneNames laneName)
    some
      { key := keyOf repoId laneName
        conflicts := (adj.neighbours (.name laneName)).map fun n => keyOf repoId n.text
        maxConcurrent := cfg.maxConcurrentOf laneName }

end RepoConfig

/-! ### What a lane sees -/

theorem holds_foldl_iff {σ α : Type} {P : σ → Prop} {R : α → Prop} {f : σ → α → σ} {l : List α}
    (h : ∀ s a, P (f s a) ↔ P s ∨ R a) (s : σ) :
    P (l.foldl f s) ↔ P s ∨ ∃ a ∈ l, R a := by
  induction l generalizing s with
  | nil => simp
  | cons a l ih =>
    rw [List.foldl_cons, ih, h, List.exists_mem_cons_iff, or_assoc]

namespace Adjacency

variable {adj : Adjacency} {x y w z : ConflictEntry}

theorem neighbours_ensure : (adj.ensure x).neighbours w = adj.neighbours w := by
  unfold ensure
  split_ifs with hthere
  · rfl
  · rw [Option.not_isSome_iff_eq_none] at hthere
    unfold neighbours
    rw [OrderedMap.get_set]
    split_ifs with hw
    · rw [hw, hthere]
      rfl
    · rfl

theorem mem_neighbours_add :
    z ∈ (adj.add x y).neighbours w ↔ z ∈ adj.neighbours w ∨ w = x ∧ z = y := by
  by_cases hw : w = x
  · have hset : (adj.add x y).neighbours w =
        if y ∈ adj.neighbours x then adj.neighbours x else adj.neighbours x ++ [y] := by
      unfold add
      rw [neighbours, OrderedMap.get_set, if_pos hw, Option.getD_some]
    rw [hset, hw]
    split_ifs with hthere
    · constructor
      · exact .inl
      · rintro (hz | ⟨-, rfl⟩)
        · exact hz
        · exact hthere
    · simp
  · have hset : (adj.add x y).neighbours w = adj.neighbours w := by
      rw [neighbours, add, OrderedMap.get_set, if_neg hw, neighbours]
    rw [hset]
    simp [hw]

theorem mem_neighbours_link : z ∈ (adj.link x y).neighbours w ↔
    z ∈ adj.neighbours w ∨ x ≠ y ∧ (w = x ∧ z = y ∨ w = y ∧ z = x) := by
  unfold link
  split_ifs with hxy
  · simp [hxy]
  · rw [mem_neighbours_add, mem_neighbours_add, neighbours_ensure, neighbours_ensure]
    simp [hxy, or_assoc]

end Adjacency

theorem neighbours_setAll (laneNames : List JsString) (w : ConflictEntry) (adj : Adjacency)
    (h : adj.neighbours w = []) :
    Adjacency.neighbours (adj.setAll (laneNames.map fun n => (.name n, []))) w = [] := by
  induction laneNames generalizing adj with
  | nil => exact h
  | cons n laneNames ih =>
    refine ih _ ?_
    unfold Adjacency.neighbours at h ⊢
    rw [OrderedMap.get_set]
    split_ifs
    · rfl
    · exact h

/-- **What `expandConflicts` lists for a name.** -/
theorem mem_expandConflicts_iff {conflicts : List (ConflictEntry × ConflictEntry)}
    {laneNames : List JsString} {w z : ConflictEntry} :
    z ∈ (expandConflicts conflicts laneNames).neighbours w ↔
      ∃ pair ∈ conflicts, ∃ x ∈ sideOf laneNames pair.1, ∃ y ∈ sideOf laneNames pair.2,
        x ≠ y ∧ (w = x ∧ z = y ∨ w = y ∧ z = x) := by
  have hinner : ∀ (bs : List ConflictEntry) (x : ConflictEntry) (adj : Adjacency),
      z ∈ (bs.foldl (fun adj y => adj.link x y) adj).neighbours w ↔
        z ∈ adj.neighbours w ∨ ∃ y ∈ bs, x ≠ y ∧ (w = x ∧ z = y ∨ w = y ∧ z = x) :=
    fun bs x adj => holds_foldl_iff (P := fun adj : Adjacency => z ∈ adj.neighbours w)
      (fun adj y => (Adjacency.mem_neighbours_link : z ∈ (adj.link x y).neighbours w ↔ _)) adj
  have houter : ∀ (bs as : List ConflictEntry) (adj : Adjacency),
      z ∈ (as.foldl (fun adj x => bs.foldl (fun adj y => adj.link x y) adj) adj).neighbours w ↔
        z ∈ adj.neighbours w ∨
          ∃ x ∈ as, ∃ y ∈ bs, x ≠ y ∧ (w = x ∧ z = y ∨ w = y ∧ z = x) :=
    fun bs as adj => holds_foldl_iff (P := fun adj : Adjacency => z ∈ adj.neighbours w)
      (fun adj x => hinner bs x adj) adj
  have hstart := neighbours_setAll laneNames w OrderedMap.empty rfl
  unfold expandConflicts
  rw [holds_foldl_iff (P := fun adj : Adjacency => z ∈ adj.neighbours w)
    (fun adj pair => houter (sideOf laneNames pair.2) (sideOf laneNames pair.1) adj), hstart]
  exact or_iff_right List.not_mem_nil

/-! ### Who conflicts, and who is seen -/

/-- The entry stands for the lane. -/
def ConflictEntry.Stands (entry : ConflictEntry) (x : JsString) : Prop :=
  entry = .name x ∨ entry = .star

/-- The entry is the name of the lane, and no `*`. -/
def ConflictEntry.Names (entry : ConflictEntry) (x : JsString) : Prop :=
  entry = .name x ∧ entry ≠ .star

instance (entry : ConflictEntry) (x : JsString) : Decidable (entry.Stands x) :=
  inferInstanceAs (Decidable (_ ∨ _))

instance (entry : ConflictEntry) (x : JsString) : Decidable (entry.Names x) :=
  inferInstanceAs (Decidable (_ ∧ _))

namespace RepoConfig

variable {cfg : RepoConfig} {x y : JsString}

/-- **The configuration declares two lanes in conflict**: a pair stands for the one and for the
other. -/
def Conflicting (cfg : RepoConfig) (x y : JsString) : Prop :=
  x ≠ y ∧ ∃ pair ∈ cfg.conflicts,
    pair.1.Stands x ∧ pair.2.Stands y ∨ pair.1.Stands y ∧ pair.2.Stands x

/-- **A lane that a ticket of another one does not see**, though they conflict: it has the key of
the ticket, which may be held more than once, or it is undeclared, and no pair says its name. -/
def Hidden (cfg : RepoConfig) (x y : JsString) : Prop :=
  cfg.Conflicting x y ∧
    (sanitizeKey x = sanitizeKey y ∧ 1 < cfg.maxConcurrentOf x ∨
      y ∉ cfg.lanes ∧ ∀ pair ∈ cfg.conflicts,
        ¬ (pair.1.Stands x ∧ pair.2.Names y) ∧ ¬ (pair.1.Names y ∧ pair.2.Stands x))

instance (cfg : RepoConfig) (x y : JsString) : Decidable (cfg.Conflicting x y) :=
  inferInstanceAs (Decidable (_ ∧ _))

instance (cfg : RepoConfig) (x y : JsString) : Decidable (cfg.Hidden x y) :=
  inferInstanceAs (Decidable (_ ∧ _))

theorem Conflicting.symm (h : cfg.Conflicting x y) : cfg.Conflicting y x := by
  obtain ⟨hne, pair, hpair, hstands⟩ := h
  exact ⟨hne.symm, pair, hpair, hstands.symm⟩

theorem mem_laneNames_self (cfg : RepoConfig) (x : JsString) : x ∈ cfg.laneNames x := by
  unfold laneNames
  split_ifs with hdeclared
  · simp only [isDeclaredLane, Bool.or_eq_true, Bool.and_eq_true, decide_eq_true_eq] at hdeclared
    rcases hdeclared with hfile | ⟨hlane, -⟩
    · exact cfg.fileLanes_subset x hfile
    · exact hlane
  · simp

theorem mem_laneNames_of_mem (hy : y ∈ cfg.lanes) : y ∈ cfg.laneNames x := by
  unfold laneNames
  split_ifs
  · exact hy
  · exact List.mem_append_left _ hy

theorem mem_sideOf_of_stands {laneNames : List JsString} {entry : ConflictEntry}
    (hx : x ∈ laneNames) (h : entry.Stands x) : .name x ∈ sideOf laneNames entry := by
  unfold sideOf
  split_ifs with hstar
  · exact List.mem_map_of_mem hx
  · rw [h.resolve_right hstar]
    exact List.mem_singleton_self _

theorem mem_sideOf_of_names {laneNames : List JsString} {entry : ConflictEntry}
    (h : entry.Names y) : .name y ∈ sideOf laneNames entry := by
  rw [sideOf, if_neg h.2, h.1]
  exact List.mem_singleton_self _

/-- **A lane sees what it conflicts with**, unless that is hidden. -/
theorem mem_neighbours_of_conflicting (h : cfg.Conflicting x y) (hhidden : ¬ cfg.Hidden x y) :
    .name y ∈ (expandConflicts cfg.conflicts (cfg.laneNames x)).neighbours (.name x) := by
  have hne : ConflictEntry.name x ≠ .name y := fun heq => h.1 (ConflictEntry.name.inj heq)
  have hself := cfg.mem_laneNames_self x
  rw [mem_expandConflicts_iff]
  by_cases hy : y ∈ cfg.lanes
  · obtain ⟨-, pair, hpair, ⟨hx, hy'⟩ | ⟨hy', hx⟩⟩ := h
    · exact ⟨pair, hpair, _, mem_sideOf_of_stands hself hx, _,
        mem_sideOf_of_stands (mem_laneNames_of_mem hy) hy', hne, .inl ⟨rfl, rfl⟩⟩
    · exact ⟨pair, hpair, _, mem_sideOf_of_stands (mem_laneNames_of_mem hy) hy', _,
        mem_sideOf_of_stands hself hx, hne.symm, .inr ⟨rfl, rfl⟩⟩
  · -- an undeclared lane is seen where a pair says its name
    have hnamed : ∃ pair ∈ cfg.conflicts,
        pair.1.Stands x ∧ pair.2.Names y ∨ pair.1.Names y ∧ pair.2.Stands x := by
      by_contra hnone
      push Not at hnone
      exact hhidden ⟨h, .inr ⟨hy, fun pair hpair =>
        ⟨fun hnames => (hnone pair hpair).1 hnames.1 hnames.2,
          fun hnames => (hnone pair hpair).2 hnames.1 hnames.2⟩⟩⟩
    obtain ⟨pair, hpair, ⟨hx, hnames⟩ | ⟨hnames, hx⟩⟩ := hnamed
    · exact ⟨pair, hpair, _, mem_sideOf_of_stands hself hx, _, mem_sideOf_of_names hnames, hne,
        .inl ⟨rfl, rfl⟩⟩
    · exact ⟨pair, hpair, _, mem_sideOf_of_names hnames, _, mem_sideOf_of_stands hself hx, hne.symm,
        .inr ⟨rfl, rfl⟩⟩

end RepoConfig

/-! ### Keys -/

/-- A key of the source as a key of the scheduler's model. -/
def keyCode (key : JsString) : ℕ := key.foldl (fun n c => n * 65536 + c.toNat) 1

theorem keyCode_concat (key : JsString) (c : UInt16) :
    keyCode (key ++ [c]) = keyCode key * 65536 + c.toNat := by
  simp [keyCode]

theorem keyCode_pos (key : JsString) : 0 < keyCode key := by
  induction key using List.reverseRecOn with
  | nil => exact Nat.one_pos
  | append_singleton key c ih =>
    rw [keyCode_concat]
    omega

theorem keyCode_injective : Function.Injective keyCode := by
  intro key
  induction key using List.reverseRecOn with
  | nil =>
    intro key' h
    induction key' using List.reverseRecOn with
    | nil => rfl
    | append_singleton key' c _ =>
      have hpos := keyCode_pos key'
      rw [keyCode_concat] at h
      change 1 = _ at h
      omega
  | append_singleton key c ih =>
    intro key' h
    induction key' using List.reverseRecOn with
    | nil =>
      have hpos := keyCode_pos key
      rw [keyCode_concat] at h
      change _ = 1 at h
      omega
    | append_singleton key' c' _ =>
      rw [keyCode_concat, keyCode_concat] at h
      have hc := c.toNat_lt
      have hc' := c'.toNat_lt
      have hkey : keyCode key = keyCode key' := by omega
      have hsame : c.toNat = c'.toNat := by omega
      rw [ih hkey, UInt16.toNat_inj.1 hsame]

/-! ### Runs -/

/-- A reading of an idle host. -/
def idleHost (now : ℤ) : Poll :=
  { aloneInQueue with
    now
    later := now
    nowEff := now
    cpuSample := some { hostBusyCores := some 0, cores := 10 } }

/-- The lease of a start is the ticket's, on its key, and no lease was in its way. -/
theorem Started.lease_eq {cfg : Config} {host : Host} {s s' : Yard} {t : Ticket} {reads : Poll}
    {grant : Grant} (h : Started cfg host s s' t reads grant) (hs : Sound s) :
    grant.lease.id = t.id ∧ grant.lease.key = t.key ∧ grant.lease.state = .running ∧
      blockedBy s.held t = none := by
  obtain ⟨u, hpoll, hplaced, hstarts, hcoherent, rfl⟩ := h.turn hs
  obtain ⟨hsubmitted, -, -, hheld⟩ := Turn.of_pollOf hpoll
  obtain ⟨resources, weight, hticket⟩ := u.ticket_eq_submitted
  have hfree := hstarts.notBlocked hplaced hcoherent
  have hlease : u.lease.key = u.ticket.key ∧ u.lease.state = .running := by
    unfold Turn.lease
    split_ifs <;> exact ⟨rfl, rfl⟩
  rw [hheld, hticket, hsubmitted] at hfree
  refine ⟨?_, ?_, hlease.2, hfree⟩
  · exact u.lease_id.trans (u.toPoll.ticket_id.trans (congrArg Ticket.id hsubmitted))
  · exact hlease.1.trans (by rw [hticket, hsubmitted])

/-- **A repository**, and for which of its lanes a ticket was submitted; `none` for a ticket of
another one. -/
structure Repo where
  id : JsString
  cfg : RepoConfig
  laneOf : TicketId → Option JsString

namespace Repo

variable {R : Repo} {cfg : Config} {host : Host}

/-- The ticket is what its lane was resolved to. -/
def Submitted (R : Repo) (t : Ticket) : Prop :=
  ∀ x ∈ R.laneOf t.id, ∃ r ∈ R.cfg.resolveTicketConfig R.id x,
    t.key = keyCode r.key ∧ t.conflicts = r.conflicts.map keyCode ∧
      t.maxConcurrent = some r.maxConcurrent

/-- **What is enqueued** for the repository comes out of `resolveTicketConfig`. -/
def Enqueues (R : Repo) : Act → Prop
  | .enqueue ticket _ _ => R.Submitted ticket
  | _ => True

/-- **No ticket is evaluated beside a lease that is hidden from it.** -/
def Sighted (R : Repo) (s : Yard) : Act → Prop
  | .poll id _ _ => ∀ x ∈ R.laneOf id, ∀ l ∈ s.held, ∀ y ∈ R.laneOf l.id, ¬ R.cfg.Hidden x y
  | _ => True

/-- **No two lanes that conflict are held together.** -/
def Apart (R : Repo) (held : List Lease) : Prop :=
  ∀ l ∈ held, ∀ l' ∈ held, ∀ x ∈ R.laneOf l.id, ∀ y ∈ R.laneOf l'.id, ¬ R.cfg.Conflicting x y

/-- What the steps keep: the supervisors hold what was submitted, and a lease has the key of its
lane. -/
structure Keyed (R : Repo) (s : Yard) : Prop where
  sound : Sound s
  copy : ∀ id t, s.copies id = some t → R.Submitted t
  key : ∀ l ∈ s.disk.leases, ∀ x ∈ R.laneOf l.id, l.key = keyCode (RepoConfig.keyOf R.id x)

theorem key_of_resolve {x : JsString} {r : ResolvedLane}
    (h : r ∈ R.cfg.resolveTicketConfig R.id x) : r.key = RepoConfig.keyOf R.id x ∧
      r.maxConcurrent = R.cfg.maxConcurrentOf x ∧
      r.conflicts = ((expandConflicts R.cfg.conflicts (R.cfg.laneNames x)).neighbours
        (.name x)).map fun n => RepoConfig.keyOf R.id n.text := by
  unfold RepoConfig.resolveTicketConfig at h
  split_ifs at h with hunknown
  · cases h
  · obtain rfl := Option.some.inj h
    exact ⟨rfl, rfl, rfl⟩

theorem keyOf_inj {x y : JsString} (h : RepoConfig.keyOf R.id x = RepoConfig.keyOf R.id y) :
    sanitizeKey x = sanitizeKey y := List.append_cancel_left h

theorem ceilingOf_of_le {n : ℤ} (h : n ≤ 1) : ceilingOf (some n) = 1 := by
  unfold ceilingOf
  rw [Option.filter_some]
  split_ifs with hone
  · rw [Option.getD_some, le_antisymm h (of_decide_eq_true hone)]
    rfl
  · rfl

/-- **A ticket that is not blocked conflicts with no lease that it sees.** -/
theorem not_conflicting_of_free {held : List Lease} {t : Ticket} {x y : JsString} {l : Lease}
    (hx : x ∈ R.laneOf t.id) (ht : R.Submitted t) (hfree : blockedBy held t = none) (hl : l ∈ held)
    (hkey : l.key = keyCode (RepoConfig.keyOf R.id y)) (hhidden : ¬ R.cfg.Hidden x y) :
    ¬ R.cfg.Conflicting x y := by
  intro hconflict
  obtain ⟨r, hr, htkey, htconflicts, hmax⟩ := ht x hx
  obtain ⟨hrkey, hrmax, hrconflicts⟩ := key_of_resolve hr
  obtain ⟨hclear, hroom⟩ := blockedBy_eq_none_iff.1 hfree
  by_cases hsame : sanitizeKey x = sanitizeKey y
  · -- the lease is on the key of the ticket, which is full with it
    have hone : R.cfg.maxConcurrentOf x ≤ 1 := by
      by_contra hmore
      exact hhidden ⟨hconflict, .inl ⟨hsame, not_le.1 hmore⟩⟩
    rw [hmax, hrmax, ceilingOf_of_le hone] at hroom
    have hpos : 0 < held.countP fun l => l.key == t.key := by
      refine List.countP_pos_iff.2 ⟨l, hl, ?_⟩
      rw [hkey, htkey, hrkey, RepoConfig.keyOf, RepoConfig.keyOf, hsame]
      exact beq_self_eq_true _
    omega
  · refine hclear l hl (fun heq => hsame (R.keyOf_inj ?_)) ?_
    · rw [hkey, htkey, hrkey] at heq
      exact (keyCode_injective heq).symm
    · rw [htconflicts, hrconflicts, hkey]
      exact List.mem_map_of_mem (List.mem_map.2
        ⟨.name y, RepoConfig.mem_neighbours_of_conflicting hconflict hhidden, rfl⟩)

theorem keyed_start {s : Yard} (h : (yard cfg host).start s) : R.Keyed s := by
  refine ⟨sound_start h, fun id t ht => ?_, fun l hl => ?_⟩
  · obtain ⟨-, -, -, hcopies⟩ := h
    rw [hcopies] at ht
    cases ht
  · obtain ⟨-, hleases, -, -⟩ := h
    rw [hleases] at hl
    exact absurd hl List.not_mem_nil

/-- **A supervisor's ticket** was there before, or comes in with the step. -/
theorem copies_of_next {s s' : Yard} {a : Act} (h : (yard cfg host).next s a = some s')
    {id : TicketId} {t : Ticket} (ht : s'.copies id = some t) :
    s.copies id = some t ∨ ∃ record place, a = .enqueue t record place := by
  cases a with
  | enqueue ticket record place =>
    simp only [yard, Yard.next] at h
    split_ifs at h
    obtain rfl := Option.some.inj h
    by_cases hid : id = ticket.id
    · subst hid
      simp only [Function.update_self, Option.some.injEq] at ht
      exact .inr ⟨record, place, by rw [ht]⟩
    · simp only [Function.update_of_ne hid] at ht
      exact .inl ht
  | forget gone =>
    simp only [yard, Yard.next] at h
    split_ifs at h
    obtain rfl := Option.some.inj h
    by_cases hid : id = gone
    · subst hid
      simp at ht
    · simp only [Function.update_of_ne hid] at ht
      exact .inl ht
  | poll polled reads io =>
    simp only [yard, Yard.next] at h
    obtain ⟨u, -, rfl⟩ := Option.map_eq_some_iff.1 h
    exact .inl ht
  | release | restore =>
    obtain rfl := Option.some.inj h
    exact .inl ht
  | rearrange | mark | heartbeat | relist =>
    simp only [yard, Yard.next] at h
    split_ifs at h
    obtain rfl := Option.some.inj h
    exact .inl ht

theorem keyed_step {s s' : Yard} {a : Act} (hs : R.Keyed s) (ha : R.Enqueues a)
    (h : (yard cfg host).next s a = some s') : R.Keyed s' := by
  refine ⟨sound_step hs.sound h, fun id t ht => ?_, fun l hl x hx => ?_⟩
  · rcases copies_of_next h ht with hold | ⟨record, place, rfl⟩
    · exact hs.copy id t hold
    · exact ha
  · rcases lease_step hs.sound h with hfewer | ⟨t, reads, io, grant, -, hstarted⟩
    · obtain ⟨l₀, hl₀, hcore, -⟩ := hfewer.lease l hl
      have hid : l.id = l₀.id := Lease.eq_of_core hcore Lease.id fun _ => rfl
      rw [Lease.eq_of_core hcore Lease.key fun _ => rfl]
      exact hs.key l₀ hl₀ x (hid ▸ hx)
    · obtain ⟨hid, hkey, -, -⟩ := hstarted.lease_eq hs.sound
      rw [hstarted.leases, Disk.leased, List.mem_append, List.mem_singleton] at hl
      rcases hl with hl | rfl
      · exact hs.key l (List.mem_of_mem_filter hl) x hx
      · obtain ⟨r, hr, htkey, -⟩ := hs.copy t.id t hstarted.copy x (hid ▸ hx)
        rw [hkey, htkey, (key_of_resolve hr).1]

/-- **The step lemma.** -/
theorem apart_step {s s' : Yard} {a : Act} (hs : R.Keyed s) (hapart : R.Apart s.held)
    (ha : R.Sighted s a) (h : (yard cfg host).next s a = some s') : R.Apart s'.held := by
  rcases lease_step hs.sound h with hfewer | ⟨t, reads, io, grant, rfl, hstarted⟩
  · intro l hl l' hl' x hx y hy
    obtain ⟨m, hm, hcore⟩ := exists_core_of_subperm hfewer.held l hl
    obtain ⟨m', hm', hcore'⟩ := exists_core_of_subperm hfewer.held l' hl'
    rw [← Lease.eq_of_core hcore Lease.id fun _ => rfl] at hx
    rw [← Lease.eq_of_core hcore' Lease.id fun _ => rfl] at hy
    exact hapart m hm m' hm' x hx y hy
  · obtain ⟨hid, -, hrunning, hfree⟩ := hstarted.lease_eq hs.sound
    have hnew : ∀ l ∈ s.held, ∀ x ∈ R.laneOf t.id, ∀ y ∈ R.laneOf l.id,
        ¬ R.cfg.Conflicting x y := fun l hl x hx y hy =>
      not_conflicting_of_free hx (hs.copy t.id t hstarted.copy) hfree hl
        (hs.key l (List.mem_of_mem_filter hl) y hy) (ha x hx l hl y hy)
    intro l hl l' hl' x hx y hy
    rw [hstarted.held hrunning, List.mem_append, List.mem_singleton] at hl hl'
    rcases hl with hl | rfl
    · rcases hl' with hl' | rfl
      · exact hapart l (List.mem_of_mem_filter hl) l' (List.mem_of_mem_filter hl') x hx y hy
      · exact fun hconflict => hnew l (List.mem_of_mem_filter hl) y (hid ▸ hy) x hx hconflict.symm
    · rcases hl' with hl' | rfl
      · exact hnew l' (List.mem_of_mem_filter hl') x (hid ▸ hx) y hy
      · rw [Option.mem_def] at hx hy
        obtain rfl := Option.some.inj (hx.symm.trans hy)
        exact fun hconflict => hconflict.1 rfl

/-- **No two lanes that conflict are held together**, in every run in which no ticket is evaluated
beside a lease that is hidden from it. -/
theorem apart_of_sighted {s : Yard} (h : (yard cfg host).Reach
    (fun s a => R.Enqueues a ∧ R.Sighted s a) s) : R.Apart s.held := by
  have hboth : R.Keyed s ∧ R.Apart s.held := by
    refine h.invariant (P := fun s => R.Keyed s ∧ R.Apart s.held)
      (fun s hs => ⟨keyed_start hs, ?_⟩) fun s a s' hs ha hnext =>
        ⟨keyed_step hs.1 ha.1 hnext, apart_step hs.1 hs.2 ha.2 hnext⟩
    intro l hl
    rw [Yard.held, hs.2.1] at hl
    exact absurd hl List.not_mem_nil
  exact hboth.2

instance (R : Repo) (t : Ticket) : Decidable (R.Submitted t) :=
  inferInstanceAs (Decidable (∀ x ∈ R.laneOf t.id, ∃ r ∈ R.cfg.resolveTicketConfig R.id x, _))

instance (R : Repo) : (a : Act) → Decidable (R.Enqueues a)
  | .enqueue ticket _ _ => inferInstanceAs (Decidable (R.Submitted ticket))
  | .rearrange _ _ | .mark _ _ | .release _ | .heartbeat _ | .relist _ | .restore _ _ | .forget _
  | .poll _ _ _ => isTrue trivial

instance (R : Repo) (s : Yard) : (a : Act) → Decidable (R.Sighted s a)
  | .poll id _ _ => inferInstanceAs (Decidable (∀ x ∈ R.laneOf id, ∀ l ∈ s.held, _))
  | .enqueue _ _ _ | .rearrange _ _ | .mark _ _ | .release _ | .heartbeat _ | .relist _
  | .restore _ _ | .forget _ => isTrue trivial

instance (R : Repo) (held : List Lease) : Decidable (R.Apart held) :=
  inferInstanceAs (Decidable (∀ l ∈ held, _))

/-- A ticket of a lane, as it is submitted. -/
def ticketOf (R : Repo) (id : TicketId) : Ticket :=
  match (R.laneOf id).bind (R.cfg.resolveTicketConfig R.id) with
  | some r =>
    { id
      seq := id
      key := keyCode r.key
      conflicts := r.conflicts.map keyCode
      maxConcurrent := some r.maxConcurrent }
  | none => { id, seq := id }

/-- Two tickets of the repository, one after the other, on an idle host. -/
def oneByOne (R : Repo) (first second : TicketId) : List Act :=
  [.enqueue (R.ticketOf first) { ticket := R.ticketOf first } 0,
    .poll first (idleHost 0) fun _ => .ok,
    .enqueue (R.ticketOf second) { ticket := R.ticketOf second } 0,
    .poll second (idleHost 10000) fun _ => .ok]

end Repo

/-- Every lane conflicts with the release, and other names are let through. -/
def aroundRelease : Repo where
  id := js "repo"
  cfg :=
    { lanes := [js "default", js "build", js "release"]
      fileLanes := [js "build", js "release"]
      fileLanes_subset := by decide
      conflicts := [(.star, .name (js "release"))]
      undeclaredLanes := .allow }
  laneOf id := [js "build", js "release", js "adhoc"][id]?

/-- Two lanes that conflict, and whose names make one key; each may run twice. -/
def oneKey : Repo where
  id := js "repo"
  cfg :=
    { lanes := [js "default", js "a b", js "a_b"]
      fileLanes := [js "a b", js "a_b"]
      fileLanes_subset := by decide
      maxConcurrent := fun _ => some 2
      conflicts := [(.name (js "a b"), .name (js "a_b"))] }
  laneOf id := [js "a b", js "a_b"][id]?

theorem Repo.exists_reach (ok : Yard → Act → Prop) [∀ s a, Decidable (ok s a)] (as : List Act)
    (p : Yard → Bool)
    (hok : (yard {} aloneInQueue.host).check (fun s a => decide (ok s a)) {} as = true)
    (h : ((yard {} aloneInQueue.host).exec {} as).any p = true) :
    ∃ s, (yard {} aloneInQueue.host).Reach ok s ∧ p s = true :=
  (yard {} aloneInQueue.host).exists_reach_of_exec {} as p ⟨rfl, rfl, rfl, rfl⟩
    (Machine.along_of_check _ (fun _ _ => of_decide_eq_true) as hok) h

/-- The release waits for the build. -/
theorem Repo.apart_of_sighted_build : ∃ s : Yard, s.held.length = 1 ∧ s.disk.queue.length = 1 ∧
    aroundRelease.Apart s.held := by
  obtain ⟨s, hs, hp⟩ := Repo.exists_reach
    (fun s a => aroundRelease.Enqueues a ∧ aroundRelease.Sighted s a)
    (aroundRelease.oneByOne 0 1)
    (fun s => decide (s.held.length = 1 ∧ s.disk.queue.length = 1)) (by decide +kernel)
    (by decide +kernel)
  obtain ⟨hheld, hqueue⟩ := of_decide_eq_true hp
  exact ⟨s, hheld, hqueue, Repo.apart_of_sighted hs⟩

/-- **Lanes that conflict are held together**: the release beside an undeclared lane that it
conflicts with through a `*`, and two lanes of one key. -/
theorem Repo.not_forall_apart :
    (∃ s : Yard, (yard {} aloneInQueue.host).Reach (fun _ a => aroundRelease.Enqueues a) s ∧
      ¬ aroundRelease.Apart s.held) ∧
    ∃ s : Yard, (yard {} aloneInQueue.host).Reach (fun _ a => oneKey.Enqueues a) s ∧
      ¬ oneKey.Apart s.held := by
  constructor
  · obtain ⟨s, hs, hp⟩ := Repo.exists_reach (fun _ a => aroundRelease.Enqueues a)
      (aroundRelease.oneByOne 2 1) (fun s => !decide (aroundRelease.Apart s.held))
      (by decide +kernel) (by decide +kernel)
    exact ⟨s, hs, by simpa using hp⟩
  · obtain ⟨s, hs, hp⟩ := Repo.exists_reach (fun _ a => oneKey.Enqueues a)
      (oneKey.oneByOne 0 1) (fun s => !decide (oneKey.Apart s.held))
      (by decide +kernel) (by decide +kernel)
    exact ⟨s, hs, by simpa using hp⟩

end Scheduler
end LaneBroker
