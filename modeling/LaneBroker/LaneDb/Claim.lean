/-
# A claim

`claim_next`: the fences and the demotions, the selection in its stages, and what the claim
writes.  The stages keep the names of the common table expressions (`pol`, `grp`, `elig`,
`rho`, `cand`, `fit`, `rep`, `stride`); a stage is a function of what the statement sees
(`Scan`).

The selection and the commit are two functions, `beginClaim` and `finishClaim`: other
transactions that do not take the scheduling lock may commit between the two, and the commit
looks again at the tables it finds.  A sort key is a value in a lexicographic order: `DESC` is
the dual, `NULLS LAST` a top and `NULLS FIRST` a bottom.
-/

import LaneBroker.Basis.Choice
import LaneBroker.LaneDb.Tables
import Mathlib.Order.WithBot

namespace LaneBroker
namespace LaneDb

open LaneBroker.Basis.Choice

/-- **The arguments of a claim**, the session that makes it, and the clock behind the lock. -/
structure Call where
  session : RoleId
  gen : ℤ
  /-- A `real`. -/
  free : ℚ
  free_real : Basis.single.round free = free := by decide +kernel
  used : List (ClassId × ℚ) := []
  closed : List ClassId := []
  mem : ℤ
  heldKeys : List Key := []
  token : ℕ := 0
  now : Time
  deriving DecidableEq, Repr

/-- **What the statement of the selection sees.** -/
structure Scan where
  num : Numerics
  db : Tables
  host : Host
  call : Call

/-- A row of `pol`. -/
structure PolRow where
  cls : ClassId
  weight : ℚ
  capCpuPct : Option ℚ
  vtime : ℚ
  wasActive : Bool
  deriving DecidableEq, Repr

/-- A row of `grp`: a group with its parent. -/
structure GroupRow where
  gid : GroupId
  pid : ParentId
  gLast : Option Time
  openStage : Option ℤ
  band : ℤ
  gSince : Time
  gOverdue : Bool
  urgG : ℚ
  dl : Option Time
  sinceP : Time
  pOverdue : Bool
  scoreBase : ℚ
  deriving DecidableEq, Repr

/-- A row of `elig`: a group and a work class. -/
structure EligRow extends GroupRow where
  cls : ClassId
  weight : ℚ
  vtime : ℚ
  wasActive : Bool
  deriving DecidableEq, Repr

/-- A row of `cand`, with the rooms. -/
structure CandRow extends EligRow where
  floorRoomHeld : ℚ
  /-- `none` is infinite. -/
  capRoom : Option ℚ
  deriving DecidableEq, Repr

/-- A row of `fit`, with its job. -/
structure FitRow extends CandRow where
  job : Job
  overdue : Bool
  floorRoom : ℚ
  score : ℚ := 0
  deriving DecidableEq, Repr

/-- A row of `stride`. -/
structure Pick extends FitRow where
  activeFloor : Option ℚ
  present : List ClassId
  effVtime : ℚ
  deriving DecidableEq, Repr

/-- `round(·, 9)`, half away from zero. -/
def round9 (x : ℚ) : ℚ :=
  if 0 ≤ x then ⌊x * 1000000000 + 1 / 2⌋ / 1000000000
  else -(⌊-x * 1000000000 + 1 / 2⌋ / 1000000000)

/-- `· :: numeric`: a double keeps fifteen digits. -/
def numericOf (x : ℚ) : ℚ :=
  Basis.roundEven (x / 10 ^ (Int.log 10 |x| - 14)) * 10 ^ (Int.log 10 |x| - 14)

/-- **`round(· :: numeric, 9)`.** -/
def numericRound9 (x : ℚ) : ℚ := round9 (numericOf x)

/-- **Whose turn it is**: an overdue parent in the order of its waiting origin and id, then the
effective rank, then the stride. -/
def turnOf (overdue : Bool) (sinceP : Time) (pid : ParentId) (band : ℤ) (vtime : ℚ) :
    Bool ×ₗ WithTop ℚ ×ₗ WithTop ℕ ×ₗ ℤᵒᵈ ×ₗ ℚ :=
  toLex (!overdue, toLex (if overdue then (sinceP : WithTop ℚ) else ⊤,
    toLex (if overdue then (pid : WithTop ℕ) else ⊤, toLex (OrderDual.toDual band, vtime))))

/-- Longest first, then arrival. -/
def jobKey (j : Job) : ℚᵒᵈ ×ₗ ℤ := toLex (OrderDual.toDual j.estP50S, j.seq)

/-- The order of the sort keys, by the path that evaluates. -/
local instance (priority := 2000) sortKeys : Preorder ℤ :=
  Int.instLinearOrder.toPartialOrder.toPreorder

namespace Scan

variable (s : Scan)

/-- 20 minutes without service. -/
def overdueSince (since : Time) : Bool := decide (1200 ≤ s.call.now - since)

def pol : List PolRow :=
  (s.db.hostClassPolicy.filter fun c =>
    c.hostId = s.host.hostId && Tables.claimable s.call.closed c).map fun c =>
      let v := s.db.classVtimeOf s.host.hostId c.cls
      { cls := c.cls
        weight := c.weight
        capCpuPct := c.capCpuPct
        vtime := (v.map ClassVtime.vtime).getD 0
        wasActive := (v.map ClassVtime.active).getD false }

/-- A group and its parent in `grp`. -/
def groupRow (g : Group) (p : SchedParent) : GroupRow :=
  let gSince := (g.lastClaimAt.or g.agingAnchor).getD 0
  let sinceP := (Tables.sinceOf p).getD 0
  { gid := g.id
    pid := p.id
    gLast := g.lastClaimAt
    openStage := s.db.openStage g.id
    band := s.db.effRank g p
    gSince := gSince
    gOverdue := s.overdueSince gSince
    urgG := s.db.urgency g s.call.now
    dl := s.db.deadlineEff g s.call.now
    sinceP := sinceP
    pOverdue := s.overdueSince sinceP
    scoreBase := s.db.parentScore s.num p s.host.hostId s.call.now }

/-- The parent of a group, once its clock runs: the rows of `par`. -/
def par (g : Group) : Option SchedParent :=
  (s.db.schedParent g.parentId).filter fun p => p.agingAnchor.isSome

/-- The groups that a host may serve. -/
def servable (g : Group) : Bool :=
  g.state = .active && !g.cancelRequested && s.db.destOk g.owner s.host.hostId

def grp : List GroupRow :=
  (s.db.groups.filter s.servable).filterMap fun g => (s.par g).map (s.groupRow g)

/-- A queued job of the row that is eligible. -/
def eligible (g : GroupRow) (cls : ClassId) (j : Job) : Bool :=
  j.groupId = g.gid && some j.stage = g.openStage && j.cls = cls && j.state = .queued &&
    s.db.jobEligible j s.host g.openStage s.call.heldKeys s.call.now

def eligRow (pol : PolRow) (g : GroupRow) : EligRow :=
  { toGroupRow := g
    cls := pol.cls
    weight := pol.weight
    vtime := pol.vtime
    wasActive := pol.wasActive }

/-- One row for each group and work class with an eligible job of any size. -/
def elig : List EligRow :=
  s.pol.flatMap fun pol =>
    (s.grp.filter fun g => s.db.jobs.any (s.eligible g pol.cls)).map (eligRow pol)

/-- The rank of the best waiting work of a class, of any size. -/
def rho (cls : ClassId) : Option ℤ :=
  ((s.elig.filter fun e => e.cls = cls).map fun e => e.band).max?

/-- The room of a work class under its cap; without a cap it is `none`. -/
def capRoom (cls : ClassId) : Option ℚ :=
  (s.pol.find? fun pw => pw.cls = cls).bind fun pw =>
    pw.capCpuPct.map fun cap => Basis.single.round
      (Tables.shareLess cap s.host.budget (Tables.usedOf s.call.used cls))

def candRow (e : EligRow) : CandRow :=
  { toEligRow := e
    floorRoomHeld := Basis.single.round (s.call.free -
      s.db.reservedFloor s.host.hostId s.host.budget s.call.used s.rho e.cls e.band s.call.closed)
    capRoom := s.capRoom e.cls }

def cand : List CandRow := s.elig.map s.candRow

/-- The floor room of a job of the row. -/
def floorRoomOf (c : CandRow) (j : Job) : ℚ :=
  Tables.jobFloorRoom c.pOverdue j.exclusive s.call.free c.floorRoomHeld

/-- The CPU, the floors, the cap and the memory let the job in. -/
def fits (c : CandRow) (j : Job) : Bool :=
  s.eligible c.toGroupRow c.cls j && decide (j.cpuMin ≤ leastOf (s.floorRoomOf c j) c.capRoom) &&
    decide (j.memBytes ≤ s.call.mem)

/-- The longest fitting job of one kind: ordinary, or exclusive. -/
def kindJob (c : CandRow) (exclusive : Bool) : Option Job :=
  (s.db.jobs.filter fun j => s.fits c j && j.exclusive = exclusive).argmin jobKey

/-- An exclusive job never hides an ordinary one of an overdue parent. -/
def choiceKey (c : CandRow) (j : Job) : Bool ×ₗ ℚᵒᵈ ×ₗ ℤ :=
  toLex (c.pOverdue && j.exclusive, jobKey j)

/-- **The job of a row**: one probe for each kind, and then the choice. -/
def rowJob (c : CandRow) : Option Job :=
  ([false, true].filterMap (s.kindJob c)).argmin (choiceKey c)

/-- The rows with their jobs, without the score. -/
def fitRow (c : CandRow) (j : Job) : FitRow :=
  { toCandRow := c
    job := j
    overdue := c.pOverdue && !j.exclusive
    floorRoom := s.floorRoomOf c j }

def fitRows : List FitRow := s.cand.filterMap fun c => (s.rowJob c).map (s.fitRow c)

/-- The best urgency of the fitting groups of a parent. -/
def urgP (pid : ParentId) : ℚ :=
  (((s.fitRows.filter fun f => f.pid = pid).map fun f => f.urgG).max?).getD 0

def fit : List FitRow := s.fitRows.map fun f => { f with score := f.scoreBase + s.urgP f.pid }

/-- The order of the siblings of one parent. -/
def repKey (f : FitRow) :
    Bool ×ₗ Bool ×ₗ WithTop ℚ ×ₗ ℚᵒᵈ ×ₗ ℚ ×ₗ WithTop ℚ ×ₗ WithBot ℚ ×ₗ ℚᵒᵈ ×ₗ ℤ ×ₗ ℕ :=
  toLex (f.pOverdue && f.job.exclusive, toLex (!f.gOverdue,
    toLex (if f.gOverdue then (f.gSince : WithTop ℚ) else ⊤, toLex (OrderDual.toDual f.urgG,
      toLex (f.gSince, toLex ((f.dl : WithTop ℚ), toLex ((f.gLast : WithBot ℚ),
        toLex (OrderDual.toDual f.job.estP50S, toLex (f.job.seq, f.gid)))))))))

/-- One group for each parent and work class. -/
def rep : List FitRow := distinctOn (fun f => (f.pid, f.cls)) repKey s.fit

/-- The minimum of the classes that were active. -/
def activeFloor : Option ℚ := ((s.rep.filter fun f => f.wasActive).map fun f => f.vtime).min?

def present : List ClassId := s.rep.map fun f => f.cls

/-- The catch-up of a class that comes back. -/
def effVtime (wasActive : Bool) (vtime : ℚ) : ℚ :=
  if wasActive then vtime else max vtime (s.activeFloor.getD vtime)

def strideRow (f : FitRow) : Pick :=
  { toFitRow := f
    activeFloor := s.activeFloor
    present := s.present
    effVtime := s.effVtime f.wasActive f.vtime }

def stride : List Pick := s.rep.map s.strideRow

/-- Whose turn a row is, the virtual times compared after `round`. -/
def turnKey (round : ℚ → ℚ) (r : Pick) : Bool ×ₗ WithTop ℚ ×ₗ WithTop ℕ ×ₗ ℤᵒᵈ ×ₗ ℚ :=
  turnOf r.overdue r.sinceP r.pid r.band (round r.effVtime)

/-- What decides between rows whose turn it is. -/
def tieKey (r : Pick) : ℚᵒᵈ ×ₗ WithTop ℚ ×ₗ WithBot ℚ ×ₗ ℚᵒᵈ ×ₗ ℤ ×ₗ ℕ :=
  toLex (OrderDual.toDual r.score, toLex ((r.dl : WithTop ℚ), toLex ((r.gLast : WithBot ℚ),
    toLex (OrderDual.toDual r.job.estP50S, toLex (r.job.seq, r.gid)))))

/-- The first row. -/
def pickBy (round : ℚ → ℚ) : Option Pick :=
  s.stride.argmin fun r => toLex (turnKey round r, tieKey r)

/-- **The row of the claim**, as `numericRound9` picks it where the cast drops none of nine digits
behind the point: below a virtual time of a million. -/
def pick : Option Pick := s.pickBy round9

end Scan

/-- Why a claim raises. -/
inductive ClaimError
  | noPrincipal
  | staleGeneration
  deriving DecidableEq, Repr

/-- A row of `claim_result`. -/
structure ClaimResult where
  job : Job
  grantCpu : ℚ
  deriving DecidableEq, Repr

namespace Tables

variable (num : Numerics) (db : Tables)

/-- The host may claim at all. -/
def mayClaim (h : Host) (now : Time) : Bool :=
  h.canCompute && h.state = .active && (h.breakerUntil.all fun t => decide (t ≤ now)) &&
    db.cluster.claimsEnabled

/-- The fence of the host, and whether it lets a claim through: a draining host claims nothing, and
is active once it is empty. -/
def passFence (host : HostId) : Tables × Bool :=
  match db.hostReservation host with
  | some r =>
    if r.state = .draining then
      if 0 < db.hostLeases host then (db, false)
      else
        ({ db with
            hostReservations := db.hostReservations.map fun r =>
              if r.hostId = host then { r with state := .active } else r }, true)
    else (db, true)
  | none => (db, true)

/-- **`claim_next` up to the row it picks.** -/
def beginClaim (call : Call) : Except ClaimError (Tables × Option (Host × Pick)) :=
  match db.principalOf call.session .agent with
  | none => .error .noPrincipal
  | some me =>
    if call.gen ≠ db.cluster.generation then .error .staleGeneration
    else
      match me.hostId.bind db.host with
      | none => .ok (db, none)
      | some host =>
        if !db.mayClaim host call.now then .ok (db, none)
        else if !(db.passFence host.hostId).2 then .ok (db, none)
        else
          let db := (db.passFence host.hostId).1.refreshDemotions num call.now
          .ok (db, (Scan.pick { num, db, host, call }).map fun pick => (host, pick))

/-- What the row of a claimed job becomes. -/
def claimedJob (host : HostId) (call : Call) (grant : ℚ) (j : Job) : Job :=
  { j with
    state := .claimed
    epoch := j.epoch + 1
    claimToken := some call.token
    host := some host
    leaseUntil := some (call.now + 30)
    grantCpu := some grant }

/-- What the bookkeeping makes of a row: a class with work is active and caught up, another idle. -/
def markRow (host : HostId) (present : List ClassId) (activeFloor : Option ℚ) (v : ClassVtime) :
    ClassVtime :=
  if v.hostId = host then
    if present.contains v.cls then
      { v with
        vtime := if v.active then v.vtime else max v.vtime (activeFloor.getD v.vtime)
        active := true }
    else { v with active := false }
  else v

/-- The bookkeeping of activity, with a row for every class with work. -/
def markPresent (host : HostId) (present : List ClassId) (activeFloor : Option ℚ)
    (rows : List ClassVtime) : List ClassVtime :=
  rows.map (markRow host present activeFloor) ++
    ((present.dedup.filter fun c => !rows.any fun v => v.hostId = host ∧ v.cls = c).map fun c =>
      { hostId := host, cls := c, vtime := activeFloor.getD 0, active := true })

/-- A row charged for a grant. -/
def chargeRow (host : HostId) (cls : ClassId) (amount : ℚ) (v : ClassVtime) : ClassVtime :=
  if v.hostId = host ∧ v.cls = cls then { v with vtime := v.vtime + amount } else v

/-- What an ordinary grant is charged to its class. -/
def chargeClass (host : HostId) (cls : ClassId) (amount : ℚ) (rows : List ClassVtime) :
    List ClassVtime :=
  if rows.any fun v => v.hostId = host ∧ v.cls = cls then rows.map (chargeRow host cls amount)
  else rows ++ [{ hostId := host, cls := cls, vtime := amount }]

/-- The cores of a grant: never above either room. -/
def grantOf (j : Job) (pick : Pick) : ℚ := leastOf (min j.cpuReq pick.floorRoom) pick.capRoom

/-- What a claim writes once its job is locked, looked at again and fenced. -/
def writeClaim (call : Call) (host : Host) (pick : Pick) (j : Job) : Tables :=
  let grant := grantOf j pick
  let claimed := claimedJob host.hostId call grant j
  let rows := markPresent host.hostId pick.present pick.activeFloor db.classVtime
  Tables.addRunning num
    { db with
      jobs := db.jobs.map fun q => if q.id = j.id then claimed else q
      exclusions :=
        if j.conflictScope = .global then
          db.exclusions ++ j.conflictKeys.dedup.map fun key =>
            { key, jobId := claimed.id, epoch := claimed.epoch, host := host.hostId }
        else db.exclusions
      groups := db.groups.map fun g =>
        if g.id = pick.gid then { g with lastClaimAt := some call.now } else g
      schedParents := db.schedParents.map fun p =>
        if p.id = pick.pid then { p with lastClaimAt := some call.now } else p
      classVtime :=
        if pick.overdue then rows else chargeClass host.hostId j.cls (grant / pick.weight) rows }
    pick.pid grant call.now

/-- **`claim_next` behind its selection**: the locks, the second look, the fence of an exclusive job
and the writes. -/
def finishClaim (call : Call) (host : Host) (pick : Pick) : Tables × Option ClaimResult :=
  match db.job pick.job.id with
  | none => (db, none)
  | some j =>
    if !db.revalidateClaim j pick.gid host pick.floorRoom pick.capRoom call.mem call.heldKeys
        call.now then (db, none)
    else if j.exclusive then
      let fenced := db.reservationActivateOrDrain host j
      if fenced.2 then
        (fenced.1.writeClaim num call host pick j,
          some
            { job := claimedJob host.hostId call (grantOf j pick) j
              grantCpu := grantOf j pick })
      else (fenced.1, none)
    else
      (db.writeClaim num call host pick j,
        some
          { job := claimedJob host.hostId call (grantOf j pick) j
            grantCpu := grantOf j pick })

end Tables

end LaneDb
end LaneBroker
