/-
# The lane tables

The tables of the `lane` schema, with the columns that a claim reads or writes, and the
functions of `functions.sql` that a claim calls on the way: eligibility, the quantities of a
scheduling parent, the effective rank, deadlines, floors and reservations.  A row carries the
checks of its table.

A `real` or `double precision` is a rational and a `timestamptz` is a number of seconds; names
that are only compared are numbers.  The rooms of a claim are rounded as the statement rounds them,
to doubles on the way and to single precision where a value is a `real`; elsewhere rounding is left
out.  `power(0.5, ·)` and `ln(2)` are not rational and are
parameters (`Numerics`).
-/

import LaneBroker.Basis.Rounding
import Mathlib.Algebra.BigOperators.Group.List.Basic
import Mathlib.Algebra.Order.Field.Rat

namespace LaneBroker
namespace LaneDb

abbrev HostId := ℕ
abbrev ClassId := ℕ
abbrev RoleId := ℕ
abbrev ParentId := ℕ
abbrev GroupId := ℕ
abbrev JobId := ℕ
abbrev Key := ℕ
abbrev Time := ℚ

/-- `power(0.5, ·)` and `ln(2)`. -/
structure Numerics where
  power : ℚ → ℚ
  ln2 : ℚ

/-! ### The rows -/

/-- The names of `lane.priority_classes`. -/
inductive PrioClass
  | interactive
  | gate
  | normal
  | batch
  | scavenger
  | other (name : ℕ)
  deriving DecidableEq, Repr

structure PriorityClass where
  name : PrioClass
  rank : ℤ
  codPerMin : ℚ
  deriving DecidableEq, Repr

structure Cluster where
  generation : ℤ := 1
  claimsEnabled : Bool := false
  deriving DecidableEq, Repr

structure Config where
  wsjfEnabled : Bool := false
  deadlinesEnabled : Bool := false
  interactiveMaxCores : Option ℚ := none
  deriving DecidableEq, Repr

inductive HostState
  | active
  | draining
  | disabled
  | fenced
  deriving DecidableEq, Repr

structure Host where
  hostId : HostId
  canCompute : Bool := true
  state : HostState := .active
  breakerUntil : Option Time := none
  /-- The CPU that the host offers. -/
  budget : ℚ := 8
  tags : List ℕ := []
  deriving DecidableEq, Repr

inductive PrincipalKind
  | agent
  | submit
  | reader
  | admin
  deriving DecidableEq, Repr

structure Principal where
  loginRole : RoleId
  kind : PrincipalKind
  hostId : Option HostId := none
  allowedDestHosts : List HostId := []
  deriving DecidableEq, Repr

structure HostFactor where
  hostId : HostId
  cls : ClassId
  bucket : ℕ
  factor : ℚ
  deriving DecidableEq, Repr

structure HostClassPolicy where
  hostId : HostId
  cls : ClassId
  weight : ℚ := 1
  floorCpuPct : Option ℚ := none
  capCpuPct : Option ℚ := none
  enabled : Bool := true
  deriving DecidableEq, Repr

structure ClassVtime where
  hostId : HostId
  cls : ClassId
  vtime : ℚ := 0
  /-- The class had eligible work at the last claim on this host. -/
  active : Bool := false
  deriving DecidableEq, Repr

structure CommandTemplate where
  templateId : ℕ
  version : ℕ
  revoked : Bool := false
  deriving DecidableEq, Repr

structure SchedParent where
  id : ParentId
  account : ℕ
  prioClass : PrioClass
  agingAnchor : Option Time := none
  lastClaimAt : Option Time := none
  runningCpu : ℚ := 0
  usageDecayed : ℚ := 0
  usageAt : Option Time := none
  demoted : Bool := false
  /-- Remaining reference seconds by work class and bucket. -/
  remRef : List (ClassId × ℕ × ℚ) := []
  deriving DecidableEq, Repr

inductive GroupState
  | opened
  | active
  | aggregating
  | done
  | failed
  | cancelled
  | held
  deriving DecidableEq, Repr

structure Group where
  id : GroupId
  account : ℕ
  owner : RoleId
  parentId : ParentId
  prioClass : PrioClass := .normal
  agingAnchor : Option Time := none
  lastClaimAt : Option Time := none
  cancelRequested : Bool := false
  state : GroupState := .opened
  deadlineAt : Option Time := none
  deadlineValid : Bool := false
  /-- `CHECK (state <> 'active' OR aging_anchor IS NOT NULL)`. -/
  anchored : state = .active → agingAnchor.isSome = true := by decide
  deriving DecidableEq, Repr

structure GroupEta where
  groupId : GroupId
  etaP90S : ℚ
  lowConfidence : Bool := false
  urgency : Option ℚ := none
  deriving DecidableEq, Repr

inductive JobState
  | queued
  | claimed
  | preparing
  | running
  | succeeded
  | failed
  | cancelled
  | skipped
  | lost
  | held
  deriving DecidableEq, Repr

inductive ConflictScope
  | host
  | global
  deriving DecidableEq, Repr

structure Job where
  id : JobId
  groupId : GroupId
  seq : ℤ := 0
  stage : ℤ := 0
  cls : ClassId
  templateId : ℕ := 0
  templateVersion : ℕ := 0
  estP50S : ℚ := 300
  exclusive : Bool := false
  cpuReq : ℚ := 1
  cpuMin : ℚ := 1
  memBytes : ℤ := 0
  conflictKeys : List Key := []
  conflictScope : ConflictScope := .host
  hostPin : Option HostId := none
  hostTagsReq : List ℕ := []
  state : JobState := .queued
  epoch : ℤ := 0
  host : Option HostId := none
  claimToken : Option ℕ := none
  leaseUntil : Option Time := none
  notBefore : Time := 0
  grantCpu : Option ℚ := none
  /-- `jobs_cpu_valid`. -/
  cpuValid : 0 < cpuMin ∧ cpuMin ≤ cpuReq := by decide
  deriving DecidableEq, Repr

inductive ReservationState
  | draining
  | active
  deriving DecidableEq, Repr

/-- The exclusion fence of a host. -/
structure HostReservation where
  hostId : HostId
  ownerJobId : JobId
  state : ReservationState
  deriving DecidableEq, Repr

structure Exclusion where
  key : Key
  jobId : JobId
  epoch : ℤ
  host : HostId
  deriving DecidableEq, Repr

/-- **The tables.** -/
structure Tables where
  cluster : Cluster := {}
  config : Config := {}
  priorityClasses : List PriorityClass := []
  hosts : List Host := []
  principals : List Principal := []
  hostFactors : List HostFactor := []
  hostClassPolicy : List HostClassPolicy := []
  classVtime : List ClassVtime := []
  commandTemplates : List CommandTemplate := []
  schedParents : List SchedParent := []
  groups : List Group := []
  groupEta : List GroupEta := []
  jobs : List Job := []
  hostReservations : List HostReservation := []
  exclusions : List Exclusion := []
  deriving DecidableEq, Repr

namespace Job

/-- `state IN ('claimed','preparing','running')`. -/
def inFlight (j : Job) : Bool :=
  match j.state with
  | .claimed | .preparing | .running => true
  | _ => false

/-- `state IN ('claimed','preparing','running','held')`. -/
def begun (j : Job) : Bool := j.inFlight || j.state = .held

/-- Queued, or begun and not at its end. -/
def unfinished (j : Job) : Bool := j.state = .queued || j.begun

end Job

/-- `least`, which leaves a NULL out. -/
def leastSome : Option ℤ → Option ℤ → Option ℤ
  | some a, some b => some (min a b)
  | some a, none => some a
  | none, b => b

/-- `least` of a number and a bound that may be infinite, which is `none`. -/
def leastOf (x : ℚ) (bound : Option ℚ) : ℚ := bound.elim x (min x)

namespace Tables

variable (num : Numerics) (db : Tables)

/-! ### The rows by their keys -/

def job (id : JobId) : Option Job := db.jobs.find? fun j => j.id = id

def group (id : GroupId) : Option Group := db.groups.find? fun g => g.id = id

def schedParent (id : ParentId) : Option SchedParent := db.schedParents.find? fun p => p.id = id

def host (id : HostId) : Option Host := db.hosts.find? fun h => h.hostId = id

def hostReservation (host : HostId) : Option HostReservation :=
  db.hostReservations.find? fun r => r.hostId = host

def classVtimeOf (host : HostId) (cls : ClassId) : Option ClassVtime :=
  db.classVtime.find? fun v => v.hostId = host ∧ v.cls = cls

/-- `principal_of`. -/
def principalOf (session : RoleId) (kind : PrincipalKind) : Option Principal :=
  db.principals.find? fun p => p.loginRole = session ∧ p.kind = kind

def rankOf (name : PrioClass) : ℤ :=
  ((db.priorityClasses.find? fun c => c.name = name).map PriorityClass.rank).getD 0

def codPerMinOf (name : PrioClass) : ℚ :=
  ((db.priorityClasses.find? fun c => c.name = name).map PriorityClass.codPerMin).getD 0

/-! ### Eligibility -/

/-- `dest_ok`. -/
def destOk (owner : RoleId) (host : HostId) : Bool :=
  db.principals.any fun p => p.loginRole = owner && p.allowedDestHosts.contains host

/-- `template_ok`. -/
def templateOk (id version : ℕ) : Bool :=
  db.commandTemplates.any fun t => t.templateId = id && t.version = version && !t.revoked

/-- **`open_stage`**: the minimum stage of the unfinished jobs of a group. -/
def openStage (g : GroupId) : Option ℤ :=
  leastSome
    ((db.jobs.filter fun q => q.groupId = g && q.state = .queued).map Job.stage).min?
    ((db.jobs.filter fun f => f.groupId = g && f.begun).map Job.stage).min?

/-- **`job_eligible`**: eligibility on one host, without the size test. -/
def jobEligible (j : Job) (h : Host) (openStage : Option ℤ) (heldKeys : List Key) (now : Time) :
    Bool :=
  j.state = .queued && decide (j.notBefore ≤ now) && some j.stage = openStage &&
    (j.hostPin.all fun pin => pin = h.hostId) &&
    (j.hostTagsReq.all fun tag => h.tags.contains tag) &&
    !(j.conflictScope = .host && j.conflictKeys.any fun k => heldKeys.contains k) &&
    !(j.conflictScope = .global && db.exclusions.any fun x => j.conflictKeys.contains x.key) &&
    db.templateOk j.templateId j.templateVersion &&
    !(db.hostReservations.any fun r => r.hostId = h.hostId && r.ownerJobId ≠ j.id)

/-- **`revalidate_claim`**, under the locks of the group and the job. -/
def revalidateClaim (j : Job) (gid : GroupId) (h : Host) (floorRoom : ℚ) (capRoom : Option ℚ)
    (mem : ℤ) (heldKeys : List Key) (now : Time) : Bool :=
  (db.group gid).any fun g =>
    j.groupId = g.id && g.state = .active && !g.cancelRequested && db.destOk g.owner h.hostId &&
      db.jobEligible j h (db.openStage j.groupId) heldKeys now && decide (j.cpuMin ≤ floorRoom) &&
      (capRoom.all fun room => decide (j.cpuMin ≤ room)) && decide (j.memBytes ≤ mem)

/-! ### Scheduling parents -/

/-- The half-lives since the usage was settled, to the power. -/
def faded (p : SchedParent) (now : Time) : ℚ :=
  num.power (max 0 (now - p.usageAt.getD now) / 1800)

/-- `decayed`. -/
def decayed (p : SchedParent) (now : Time) : ℚ := p.usageDecayed * faded num p now

/-- **`usage_now`**: the decayed history and what the cores held since have accrued. -/
def usageNow (p : SchedParent) (now : Time) : ℚ :=
  decayed num p now + p.runningCpu * (1800 / num.ln2) * (1 - faded num p now)

/-- `usage_cores`. -/
def usageCores (p : SchedParent) (now : Time) : ℚ := p.runningCpu + usageNow num p now / 1800

/-- `add_running`. -/
def addRunning (parent : ParentId) (delta : ℚ) (now : Time) : Tables :=
  { db with
    schedParents := db.schedParents.map fun p =>
      if p.id = parent then
        { p with
          usageDecayed := usageNow num p now
          usageAt := some now
          runningCpu := max 0 (p.runningCpu + delta) }
      else p }

/-- `rem_min`. -/
def remMin (p : SchedParent) (host : HostId) : ℚ :=
  (p.remRef.map fun b => b.2.2 *
    ((db.hostFactors.find? fun f => f.hostId = host ∧ f.cls = b.1 ∧ f.bucket = b.2.1).map
      HostFactor.factor).getD 1).sum / 60

/-- The time of the last service of a parent, or its anchor. -/
def sinceOf (p : SchedParent) : Option Time := p.lastClaimAt.or p.agingAnchor

/-- **`parent_score`**: age, fair share and cost of delay, from the quantities of the parent. -/
def parentScore (p : SchedParent) (host : HostId) (now : Time) : ℚ :=
  min 100 (5 * max 0 (now - (sinceOf p).getD now) / 60) + 40 / (1 + usageCores num p now / 4) +
    if db.config.wsjfEnabled then
      min 60 (6 * db.codPerMinOf p.prioClass / max (db.remMin p host) (1 / 2))
    else 0

/-- `interactive_limit`; without a bound it is `none`. -/
def interactiveLimit : Option ℚ :=
  db.config.interactiveMaxCores.or
    (let budgets := (db.hosts.filter Host.canCompute).map Host.budget
     if budgets = [] then none else some (1 / 2 * budgets.sum))

/-- **`eff_rank`**: the rank of the class; an interactive parent over the limit counts as gate. -/
def effRank (g : Group) (p : SchedParent) : ℤ :=
  if g.prioClass = .interactive ∧ p.demoted then db.rankOf .gate else db.rankOf g.prioClass

/-- **`refresh_demotions`**: demoted above the limit, restored below 0.8 of it. -/
def refreshDemotions (now : Time) : Tables :=
  { db with
    schedParents := db.schedParents.map fun p =>
      if p.prioClass = .interactive then
        { p with
          demoted := db.interactiveLimit.any fun limit =>
            decide (limit < usageCores num p now) ||
              (p.demoted && decide (4 / 5 * limit ≤ usageCores num p now)) }
      else p }

/-! ### Deadlines -/

/-- `deadline_eff`. -/
def deadlineEff (g : Group) (now : Time) : Option Time :=
  g.deadlineAt.filter fun deadline =>
    db.config.deadlinesEnabled && g.deadlineValid && decide (now ≤ deadline)

/-- `urgency`. -/
def urgency (g : Group) (now : Time) : ℚ :=
  let e := db.groupEta.find? fun e => e.groupId = g.id
  let eta := (e.map GroupEta.etaP90S).getD 0
  let s0 := max 900 (1 / 2 * eta)
  match g.deadlineAt with
  | none => 0
  | some deadline =>
    if !db.config.deadlinesEnabled || !g.deadlineValid then 0
    else if deadline < now then 75
    else
      match e.bind GroupEta.urgency with
      | some urgency => urgency
      | none =>
        (if e.any GroupEta.lowConfidence then 1 / 2 else 1) * 150 *
          min 1 (max 0 (1 - (deadline - now - eta) / s0))

/-! ### Floors, caps and fences -/

/-- `(p_used ->> class)::real`. -/
def usedOf (used : List (ClassId × ℚ)) (cls : ClassId) : ℚ :=
  Basis.single.round (((used.find? fun u => u.1 = cls).map Prod.snd).getD 0)

/-- `percent / 100 * p_budget - used`, in doubles. -/
def shareLess (percent budget used : ℚ) : ℚ :=
  Basis.double.round
    (Basis.double.round (Basis.double.round (percent / 100) * budget) - used)

/-- The floor of a work class that is not in use. -/
def unmetFloor (budget : ℚ) (used : List (ClassId × ℚ)) (c : HostClassPolicy) : ℚ :=
  max 0 (shareLess (c.floorCpuPct.getD 0) budget (usedOf used c.cls))

/-- `c.enabled AND c.weight > 0 AND NOT (c.class = ANY (p_closed))`. -/
def claimable (closed : List ClassId) (c : HostClassPolicy) : Bool :=
  c.enabled && decide (0 < c.weight) && !closed.contains c.cls

/-- A class reserves its floor against a candidate of class `cls` and rank `rank`. -/
def reservesAgainst (rho : ClassId → Option ℤ) (cls : ClassId) (rank : ℤ) (c : HostClassPolicy) :
    Bool :=
  (rho c.cls).any fun r =>
    (c.cls ≠ cls && decide (rank ≤ r)) || (c.cls = cls && decide (rank < r))

/-- **`reserved_floor`**: the CPU that is reserved against a candidate. -/
def reservedFloor (host : HostId) (budget : ℚ) (used : List (ClassId × ℚ))
    (rho : ClassId → Option ℤ) (cls : ClassId) (rank : ℤ) (closed : List ClassId) : ℚ :=
  Basis.single.round (Basis.double.sum ((db.hostClassPolicy.filter fun c =>
    c.hostId = host && claimable closed c && reservesAgainst rho cls rank c).map
      (unmetFloor budget used)))

/-- `job_floor_room`: an ordinary job of an overdue parent is exempt from every floor. -/
def jobFloorRoom (parentOverdue exclusive : Bool) (free roomAfterFloors : ℚ) : ℚ :=
  if parentOverdue && !exclusive then free else roomAfterFloors

/-- `host_leases`. -/
def hostLeases (host : HostId) : ℕ :=
  (db.jobs.filter fun j => j.host = some host && j.inFlight).length

/-- **`reservation_activate_or_drain`**: the fence of an exclusive job, and whether it is claimed
now. -/
def reservationActivateOrDrain (h : Host) (j : Job) : Tables × Bool :=
  let idle := db.hostLeases h.hostId = 0
  ({ db with
      hostReservations :=
        if (db.hostReservation h.hostId).isSome then db.hostReservations
        else db.hostReservations ++
          [{ hostId := h.hostId
             ownerJobId := j.id
             state := if idle then .active else .draining }] },
    idle)

end Tables

end LaneDb
end LaneBroker
