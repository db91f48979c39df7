/-
# The staged selection and the flat one

What `claim_next` is to pick is said over all eligible jobs at once: of those whose CPU and
memory fit their own room (`Scan.fitting`), one that no other precedes in the order of the
turns (`Scan.PicksFirst`).  The statement picks in stages, and each stage lets go of rows by
sort keys of its own: one job of a group and work class, one group of a parent and work
class.  Here: nothing that a stage lets go of could have won (`Scan.exists_stride_le`), so the
two agree (`Scan.picksFirst_numericRound9`).

The stride is compared after a cast that keeps fifteen digits and a rounding to nine behind the
point (`numericRound9`), and a group counts with the rank of its
class while its siblings are those of one parent: the tables keep a group under the parent of
its class (`Tables.ClassOfParent`).
-/

import LaneBroker.LaneDb.Claim

namespace LaneBroker
namespace LaneDb

open LaneBroker.Basis.Choice

/-- Every group is under the parent of its class, as `parent_of` gives it. -/
def Tables.ClassOfParent (db : Tables) : Prop :=
  ∀ g ∈ db.groups, ∀ p ∈ db.schedParents, p.id = g.parentId → p.prioClass = g.prioClass

instance (db : Tables) : Decidable db.ClassOfParent :=
  inferInstanceAs (Decidable (∀ g ∈ db.groups, ∀ p ∈ db.schedParents, _ → _))

/-- An eligible job, with its group and the policy of its class. -/
structure Candidate where
  group : GroupRow
  pol : PolRow
  job : Job
  deriving DecidableEq, Repr

namespace Scan

variable (s : Scan)

/-! ### The flat specification -/

/-- The eligible jobs of all groups, of any size. -/
def waiting : List Candidate :=
  s.grp.flatMap fun group => s.pol.flatMap fun pol =>
    (s.db.jobs.filter (s.eligible group pol.cls)).map fun job => { group, pol, job }

/-- The highest rank among the waiting jobs of a class. -/
def waitingRank (cls : ClassId) : Option ℤ :=
  ((s.waiting.filter fun c => c.pol.cls = cls).map fun c => c.group.band).max?

/-- The CPU that is left to a candidate behind the floors. -/
def ownFloorRoom (c : Candidate) : ℚ :=
  if c.group.pOverdue && !c.job.exclusive then s.call.free
  else Basis.single.round (s.call.free - s.db.reservedFloor s.host.hostId s.host.budget
    s.call.used s.waitingRank c.pol.cls c.group.band s.call.closed)

/-- **The jobs to choose from**: `cpu_min` and the memory fit the job's own room. -/
def fitting : List Candidate :=
  s.waiting.filter fun c =>
    decide (c.job.cpuMin ≤ leastOf (s.ownFloorRoom c) (s.capRoom c.pol.cls)) &&
      decide (c.job.memBytes ≤ s.call.mem)

/-- The minimum of the virtual times of the classes that fit and were active. -/
def fittingFloor : Option ℚ :=
  ((s.fitting.filter fun c => c.pol.wasActive).map fun c => c.pol.vtime).min?

/-- The effective virtual time of the class of a candidate. -/
def classVtime (c : Candidate) : ℚ :=
  if c.pol.wasActive then c.pol.vtime else max c.pol.vtime (s.fittingFloor.getD c.pol.vtime)

/-- **The order of the turns**, with the virtual times compared after `round`. -/
def flatKey (round : ℚ → ℚ) (c : Candidate) :
    Bool ×ₗ WithTop ℚ ×ₗ WithTop ℕ ×ₗ ℤᵒᵈ ×ₗ ℚ :=
  turnOf (c.group.pOverdue && !c.job.exclusive) c.group.sinceP c.group.pid c.group.band
    (round (s.classVtime c))

/-- **The selection agrees with the flat specification**: it picks whenever there is a job to choose
from, and then one that no other strictly precedes. -/
def PicksFirst (round : ℚ → ℚ) : Prop :=
  (s.pickBy numericRound9 = none ↔ s.fitting = []) ∧
    ∀ r, s.pickBy numericRound9 = some r → ∃ c ∈ s.fitting, c.job = r.job ∧ c.group.gid = r.gid ∧
      ∀ d ∈ s.fitting, ¬ s.flatKey round d < s.flatKey round c

/-! ### The stages -/

variable {s} {g : GroupRow} {pol : PolRow} {c : CandRow} {d : Candidate} {f : FitRow} {j : Job}
  {cls : ClassId} {r : Pick}

theorem mem_waiting :
    d ∈ s.waiting ↔ d.group ∈ s.grp ∧ d.pol ∈ s.pol ∧ d.job ∈ s.db.jobs ∧
      s.eligible d.group d.pol.cls d.job = true := by
  simp only [waiting, List.mem_flatMap, List.mem_map, List.mem_filter]
  constructor
  · rintro ⟨group, hgroup, pol, hpol, job, ⟨hjob, helig⟩, rfl⟩
    exact ⟨hgroup, hpol, hjob, helig⟩
  · rintro ⟨hgroup, hpol, hjob, helig⟩
    exact ⟨d.group, hgroup, d.pol, hpol, d.job, ⟨hjob, helig⟩, rfl⟩

theorem mem_elig {e : EligRow} :
    e ∈ s.elig ↔ ∃ d ∈ s.waiting, e = eligRow d.pol d.group := by
  simp only [elig, List.mem_flatMap, List.mem_map, List.mem_filter, List.any_eq_true]
  constructor
  · rintro ⟨pol, hpol, g, ⟨hg, j, hj, helig⟩, rfl⟩
    exact ⟨⟨g, pol, j⟩, mem_waiting.2 ⟨hg, hpol, hj, helig⟩, rfl⟩
  · rintro ⟨d, hd, rfl⟩
    obtain ⟨hg, hpol, hj, helig⟩ := mem_waiting.1 hd
    exact ⟨d.pol, hpol, d.group, ⟨hg, d.job, hj, helig⟩, rfl⟩

/-! What the rows of one class, and of one parent, have in common. -/

theorem pol_congr {a b : PolRow} (ha : a ∈ s.pol) (hb : b ∈ s.pol) (h : a.cls = b.cls) :
    a.vtime = b.vtime ∧ a.wasActive = b.wasActive := by
  obtain ⟨p, -, rfl⟩ := List.mem_map.1 ha
  obtain ⟨q, -, rfl⟩ := List.mem_map.1 hb
  have h : p.cls = q.cls := h
  simp only [h, and_self]

theorem mem_grp : g ∈ s.grp ↔ ∃ x ∈ s.db.groups, s.servable x = true ∧ ∃ p, s.par x = some p ∧
    s.groupRow x p = g := by
  simp [grp, List.mem_filterMap, and_assoc]

theorem mem_of_par {x : Group} {p : SchedParent} (h : s.par x = some p) :
    p ∈ s.db.schedParents ∧ p.id = x.parentId ∧ p.agingAnchor.isSome := by
  obtain ⟨hp, hanchor⟩ := Option.filter_eq_some_iff.1 h
  refine ⟨List.mem_of_find?_eq_some hp, ?_, hanchor⟩
  simpa using List.find?_some hp

theorem par_congr {x y : Group} (h : x.parentId = y.parentId) : s.par x = s.par y := by
  rw [par, par, h]

theorem band_congr (hdb : s.db.ClassOfParent) {a b : GroupRow} (ha : a ∈ s.grp) (hb : b ∈ s.grp)
    (h : a.pid = b.pid) : a.sinceP = b.sinceP ∧ a.pOverdue = b.pOverdue ∧ a.band = b.band := by
  obtain ⟨x, hx, -, p, hp, rfl⟩ := mem_grp.1 ha
  obtain ⟨y, hy, -, q, hq, rfl⟩ := mem_grp.1 hb
  obtain ⟨hpmem, hpid, -⟩ := mem_of_par hp
  obtain ⟨hqmem, hqid, -⟩ := mem_of_par hq
  have hid : p.id = q.id := h
  have hparent : x.parentId = y.parentId := by rw [← hpid, ← hqid, hid]
  obtain rfl : p = q := Option.some.inj (by rw [← hp, ← hq, par_congr hparent])
  have hclass : x.prioClass = y.prioClass := by
    rw [← hdb x hx p hpmem hpid, ← hdb y hy p hpmem hqid]
  refine ⟨rfl, rfl, ?_⟩
  simp only [groupRow, Tables.effRank, hclass]

/-! The rank of the waiting work, and the rooms. -/

theorem rho_eq : s.rho = s.waitingRank := by
  funext cls
  refine max?_congr fun x => ?_
  simp only [List.mem_map, List.mem_filter, mem_elig, decide_eq_true_eq]
  constructor
  · rintro ⟨_, ⟨⟨d, hd, rfl⟩, hcls⟩, rfl⟩
    exact ⟨d, ⟨hd, hcls⟩, rfl⟩
  · rintro ⟨d, ⟨hd, hcls⟩, rfl⟩
    exact ⟨_, ⟨⟨d, hd, rfl⟩, hcls⟩, rfl⟩

/-- The row of `cand` of a candidate. -/
def rowOf (s : Scan) (d : Candidate) : CandRow := s.candRow (eligRow d.pol d.group)

theorem floorRoomOf_rowOf : s.floorRoomOf (s.rowOf d) d.job = s.ownFloorRoom d := by
  simp only [floorRoomOf, Tables.jobFloorRoom, ownFloorRoom, rowOf, candRow, eligRow, rho_eq]

theorem mem_cand : c ∈ s.cand ↔ ∃ d ∈ s.waiting, c = s.rowOf d := by
  simp only [cand, List.mem_map, mem_elig]
  constructor
  · rintro ⟨_, ⟨d, hd, rfl⟩, rfl⟩
    exact ⟨d, hd, rfl⟩
  · rintro ⟨d, hd, rfl⟩
    exact ⟨_, ⟨d, hd, rfl⟩, rfl⟩

theorem mem_fitting : d ∈ s.fitting ↔
    d.group ∈ s.grp ∧ d.pol ∈ s.pol ∧ d.job ∈ s.db.jobs ∧ s.fits (s.rowOf d) d.job = true := by
  rw [fitting, List.mem_filter, mem_waiting, ← floorRoomOf_rowOf]
  simp only [fits, Bool.and_eq_true, rowOf, candRow, eligRow]
  tauto

/-! The job of a row. -/

theorem of_mem_kindJob {exclusive : Bool} (h : s.kindJob c exclusive = some j) :
    j ∈ s.db.jobs ∧ s.fits c j = true ∧ j.exclusive = exclusive := by
  obtain ⟨hmem, hj⟩ := List.mem_filter.1 (List.argmin_mem h)
  simpa [hmem] using hj

theorem exists_kindJob (hmem : j ∈ s.db.jobs) (hfits : s.fits c j = true) :
    ∃ k, s.kindJob c j.exclusive = some k ∧ jobKey k ≤ jobKey j := by
  have hj : j ∈ s.db.jobs.filter fun q => s.fits c q && q.exclusive = j.exclusive := by
    simp [hmem, hfits]
  obtain ⟨k, hk⟩ : ∃ k, s.kindJob c j.exclusive = some k := by
    refine Option.ne_none_iff_exists'.1 fun hnone => ?_
    exact List.ne_nil_of_mem hj (List.argmin_eq_none.1 hnone)
  exact ⟨k, hk, List.le_of_mem_argmin hj hk⟩

theorem of_rowJob (h : s.rowJob c = some j) : j ∈ s.db.jobs ∧ s.fits c j = true := by
  obtain ⟨exclusive, -, hkind⟩ := List.mem_filterMap.1 (List.argmin_mem h)
  obtain ⟨hmem, hfits, -⟩ := of_mem_kindJob hkind
  exact ⟨hmem, hfits⟩

/-- **A row that has a fitting job has a job**, one that is exempt from the floors if any is. -/
theorem exists_rowJob (hmem : j ∈ s.db.jobs) (hfits : s.fits c j = true) :
    ∃ k, s.rowJob c = some k ∧ (c.pOverdue && k.exclusive) ≤ (c.pOverdue && j.exclusive) := by
  obtain ⟨q, hq, hle⟩ := exists_kindJob hmem hfits
  have hmem : q ∈ [false, true].filterMap (s.kindJob c) :=
    List.mem_filterMap.2 ⟨j.exclusive, by simp, hq⟩
  obtain ⟨k, hk⟩ : ∃ k, s.rowJob c = some k := by
    refine Option.ne_none_iff_exists'.1 fun hnone => ?_
    exact List.ne_nil_of_mem hmem (List.argmin_eq_none.1 hnone)
  have hkq : choiceKey c k ≤ choiceKey c q := List.le_of_mem_argmin hmem hk
  refine ⟨k, hk, ?_⟩
  have hfirst := Prod.Lex.monotone_fst _ _ hkq
  rwa [← (of_mem_kindJob hq).2.2]

/-! The rows of `fit` and of `rep`. -/

theorem mem_fit : f ∈ s.fit ↔ ∃ c ∈ s.cand, ∃ j, s.rowJob c = some j ∧
    f = { s.fitRow c j with score := c.scoreBase + s.urgP c.pid } := by
  simp only [fit, fitRows, List.mem_map, List.mem_filterMap, Option.map_eq_some_iff]
  constructor
  · rintro ⟨_, ⟨c, hc, j, hj, rfl⟩, rfl⟩
    exact ⟨c, hc, j, hj, rfl⟩
  · rintro ⟨c, hc, j, hj, rfl⟩
    exact ⟨_, ⟨c, hc, j, hj, rfl⟩, rfl⟩

/-- A row of `fit` holds a candidate that fits. -/
theorem exists_fitting_of_fit (hf : f ∈ s.fit) :
    ∃ d ∈ s.fitting, d.job = f.job ∧ d.group = f.toGroupRow ∧ f.toCandRow = s.rowOf d ∧
      f.overdue = (d.group.pOverdue && !d.job.exclusive) ∧ f.floorRoom = s.ownFloorRoom d := by
  obtain ⟨c, hc, j, hj, rfl⟩ := mem_fit.1 hf
  obtain ⟨d, hd, rfl⟩ := mem_cand.1 hc
  obtain ⟨hgroup, hpol, -, -⟩ := mem_waiting.1 hd
  obtain ⟨hjmem, hfits⟩ := of_rowJob hj
  refine ⟨⟨d.group, d.pol, j⟩, mem_fitting.2 ⟨hgroup, hpol, hjmem, hfits⟩, rfl, rfl, rfl, rfl, ?_⟩
  exact floorRoomOf_rowOf (s := s) (d := ⟨d.group, d.pol, j⟩)

/-- **Every candidate that fits has a row in `fit`**, of an overdue parent's ordinary job if it is
one itself. -/
theorem exists_fit_of_fitting (hd : d ∈ s.fitting) :
    ∃ f ∈ s.fit, f.toCandRow = s.rowOf d ∧
      (f.pOverdue && f.job.exclusive) ≤ (d.group.pOverdue && d.job.exclusive) := by
  obtain ⟨hgroup, hpol, hjob, hfits⟩ := mem_fitting.1 hd
  obtain ⟨k, hk, hle⟩ := exists_rowJob hjob hfits
  have hwaiting : d ∈ s.waiting := (List.mem_filter.1 hd).1
  exact ⟨_, mem_fit.2 ⟨s.rowOf d, mem_cand.2 ⟨d, hwaiting, rfl⟩, k, hk, rfl⟩, rfl, hle⟩

theorem exists_fitting_of_rep (hf : f ∈ s.rep) :
    ∃ d ∈ s.fitting, d.job = f.job ∧ d.group = f.toGroupRow ∧ f.toCandRow = s.rowOf d ∧
      f.overdue = (d.group.pOverdue && !d.job.exclusive) ∧ f.floorRoom = s.ownFloorRoom d :=
  exists_fitting_of_fit (mem_of_mem_distinctOn hf)

/-- **Every candidate that fits is covered by the group that stands for its parent and class.** -/
theorem exists_rep_of_fitting (hd : d ∈ s.fitting) :
    ∃ f ∈ s.rep, f.pid = d.group.pid ∧ f.cls = d.pol.cls ∧
      (f.pOverdue && f.job.exclusive) ≤ (d.group.pOverdue && d.job.exclusive) := by
  obtain ⟨e, he, hrow, hle⟩ := exists_fit_of_fitting hd
  obtain ⟨f, hf, hpart, hkey⟩ :=
    exists_mem_distinctOn (fun f : FitRow => (f.pid, f.cls)) repKey he
  have hpid : f.pid = e.pid := congrArg Prod.fst hpart
  have hcls : f.cls = e.cls := congrArg Prod.snd hpart
  have hepid : e.pid = d.group.pid := congrArg (fun c : CandRow => c.pid) hrow
  have hecls : e.cls = d.pol.cls := congrArg (fun c : CandRow => c.cls) hrow
  refine ⟨f, hf, hpid.trans hepid, hcls.trans hecls, ?_⟩
  exact (Prod.Lex.monotone_fst _ _ hkey).trans hle

/-- What a row of `rep` has in common with the candidates of its class. -/
theorem rep_vtime (hf : f ∈ s.rep) (hpol : pol ∈ s.pol) (hcls : f.cls = pol.cls) :
    f.vtime = pol.vtime ∧ f.wasActive = pol.wasActive := by
  obtain ⟨d, hd, -, -, hrow, -, -⟩ := exists_fitting_of_rep hf
  obtain ⟨-, hdpol, -, -⟩ := mem_fitting.1 hd
  have hfcls : f.cls = d.pol.cls := congrArg (fun c : CandRow => c.cls) hrow
  obtain ⟨hvtime, hactive⟩ := pol_congr hdpol hpol (hfcls.symm.trans hcls)
  have hfvtime : f.vtime = d.pol.vtime := congrArg (fun c : CandRow => c.vtime) hrow
  have hfactive : f.wasActive = d.pol.wasActive := congrArg (fun c : CandRow => c.wasActive) hrow
  exact ⟨hfvtime.trans hvtime, hfactive.trans hactive⟩

theorem activeFloor_eq : s.activeFloor = s.fittingFloor := by
  refine min?_congr fun x => ?_
  simp only [List.mem_map, List.mem_filter]
  constructor
  · rintro ⟨f, ⟨hf, hactive⟩, rfl⟩
    obtain ⟨d, hd, -, -, hrow, -, -⟩ := exists_fitting_of_rep hf
    have hfvtime : f.vtime = d.pol.vtime := congrArg (fun c : CandRow => c.vtime) hrow
    have hfactive : f.wasActive = d.pol.wasActive :=
      congrArg (fun c : CandRow => c.wasActive) hrow
    exact ⟨d, ⟨hd, hfactive ▸ hactive⟩, hfvtime.symm⟩
  · rintro ⟨d, ⟨hd, hactive⟩, rfl⟩
    obtain ⟨f, hf, -, hcls, -⟩ := exists_rep_of_fitting hd
    obtain ⟨hvtime, hfactive⟩ := rep_vtime hf (mem_fitting.1 hd).2.1 hcls
    exact ⟨f, ⟨hf, hfactive ▸ hactive⟩, hvtime⟩

/-! ### The agreement -/

/-- Being exempt from the floors only brings a turn forward. -/
theorem turnOf_le {overdue overdue' : Bool} (h : overdue' ≤ overdue) (sinceP : Time)
    (pid : ParentId) (band : ℤ) (vtime : ℚ) :
    turnOf overdue sinceP pid band vtime ≤ turnOf overdue' sinceP pid band vtime := by
  rcases h.eq_or_lt with rfl | hlt
  · exact le_rfl
  · obtain ⟨rfl, rfl⟩ : overdue' = false ∧ overdue = true := Bool.lt_iff.1 hlt
    exact (Prod.Lex.toLex_lt_toLex.2 (.inl Bool.false_lt_true)).le

/-- Between ordinary turns the rank decides, and then the stride. -/
theorem turnOf_false_le {since since' : Time} {pid pid' : ParentId} {band band' : ℤ} {v v' : ℚ} :
    turnOf false since pid band v ≤ turnOf false since' pid' band' v' ↔
      band' < band ∨ band = band' ∧ v ≤ v' := by
  simp only [turnOf, Bool.false_eq_true, if_false, Prod.Lex.toLex_le_toLex, lt_self_iff_false,
    false_or, true_and, OrderDual.toDual_lt_toDual, EmbeddingLike.apply_eq_iff_eq]

/-- **Nothing that a stage lets go of could have won.** -/
theorem exists_stride_le (round : ℚ → ℚ) (hdb : s.db.ClassOfParent) (hd : d ∈ s.fitting) :
    ∃ r ∈ s.stride, turnKey round r ≤ s.flatKey round d := by
  obtain ⟨f, hf, hpid, hcls, hle⟩ := exists_rep_of_fitting hd
  obtain ⟨hgroup, hpol, -, -⟩ := mem_fitting.1 hd
  obtain ⟨e, he, hjob, hegroup, -, hoverdue, -⟩ := exists_fitting_of_rep hf
  obtain ⟨hsince, hpOverdue, hband⟩ := band_congr hdb (hegroup ▸ (mem_fitting.1 he).1) hgroup hpid
  obtain ⟨hvtime, hactive⟩ := rep_vtime hf hpol hcls
  refine ⟨s.strideRow f, List.mem_map_of_mem hf, ?_⟩
  have heff : (s.strideRow f).effVtime = s.classVtime d := by
    simp only [strideRow, effVtime, classVtime, hvtime, hactive, activeFloor_eq]
  have hexempt : (d.group.pOverdue && !d.job.exclusive) ≤ f.overdue := by
    rw [hoverdue, hegroup, hjob]
    rw [hpOverdue] at hle ⊢
    revert hle
    cases d.group.pOverdue <;> cases d.job.exclusive <;> cases f.job.exclusive <;> decide
  rw [turnKey, flatKey, heff]
  simp only [strideRow, hsince, hpid, hband]
  exact turnOf_le hexempt _ _ _ _

theorem pickBy_eq_none {round : ℚ → ℚ} : s.pickBy round = none ↔ s.fitting = [] := by
  rw [pickBy, List.argmin_eq_none, stride, List.map_eq_nil_iff]
  constructor
  · intro h
    refine List.eq_nil_iff_forall_not_mem.2 fun d hd => ?_
    obtain ⟨f, hf, -⟩ := exists_rep_of_fitting hd
    simp [h] at hf
  · intro h
    refine List.eq_nil_iff_forall_not_mem.2 fun f hf => ?_
    obtain ⟨d, hd, -⟩ := exists_fitting_of_rep hf
    simp [h] at hd

/-- **The row that is picked holds a candidate that fits**, with what the selection saw of it. -/
theorem exists_fitting_of_pickBy {round : ℚ → ℚ} (h : s.pickBy round = some r) :
    ∃ d ∈ s.fitting, d.job = r.job ∧ d.group = r.toGroupRow ∧ r.toCandRow = s.rowOf d ∧
      r.overdue = (d.group.pOverdue && !d.job.exclusive) ∧ r.floorRoom = s.ownFloorRoom d ∧
      turnKey round r = s.flatKey round d := by
  obtain ⟨f, hf, rfl⟩ := List.mem_map.1 (List.argmin_mem h)
  obtain ⟨d, hd, hjob, hgroup, hrow, hoverdue, hroom⟩ := exists_fitting_of_rep hf
  refine ⟨d, hd, hjob, hgroup, hrow, hoverdue, hroom, ?_⟩
  have hvtime : f.vtime = d.pol.vtime := congrArg (fun c : CandRow => c.vtime) hrow
  have hactive : f.wasActive = d.pol.wasActive := congrArg (fun c : CandRow => c.wasActive) hrow
  simp only [turnKey, flatKey, strideRow, effVtime, classVtime, hvtime, hactive, activeFloor_eq,
    hoverdue, hgroup]

/-- No candidate that fits has an earlier turn than the row that is picked. -/
theorem turnKey_le_of_pickBy {round : ℚ → ℚ} (hdb : s.db.ClassOfParent)
    (h : s.pickBy round = some r) (hd : d ∈ s.fitting) :
    turnKey round r ≤ s.flatKey round d := by
  obtain ⟨q, hq, hle⟩ := exists_stride_le round hdb hd
  have hrq := List.le_of_mem_argmin hq h
  exact (Prod.Lex.monotone_fst _ _ hrq).trans hle

/-- **The staged selection agrees with the flat specification**, the stride compared as the code
compares it. -/
theorem picksFirst_numericRound9 (s : Scan) (hdb : s.db.ClassOfParent) :
    s.PicksFirst numericRound9 := by
  refine ⟨pickBy_eq_none, fun r h => ?_⟩
  obtain ⟨c, hc, hjob, hgroup, -, -, -, hkey⟩ := exists_fitting_of_pickBy h
  refine ⟨c, hc, hjob, congrArg GroupRow.gid hgroup, fun d hd => ?_⟩
  rw [← hkey]
  exact not_lt_of_ge (turnKey_le_of_pickBy hdb h hd)

/-! ### Two classes -/

/-- Two groups of one parent, a long job of class 1 and a short one of class 2; class 1 is ahead of
class 2 by `lead`. -/
def twoClasses (lead : ℚ) : Scan :=
  { num := { power := fun x => if x = 0 then 1 else 1 / 2, ln2 := 693147 / 1000000 }
    host := { hostId := 1 }
    call := { session := 1, gen := 1, free := 8, mem := 0, now := 60 }
    db :=
      { cluster := { claimsEnabled := true }
        priorityClasses := [{ name := .normal, rank := 2, codPerMin := 2 }]
        hosts := [{ hostId := 1 }]
        principals :=
          [{ loginRole := 1, kind := .agent, hostId := some 1 },
            { loginRole := 2, kind := .submit, allowedDestHosts := [1] }]
        hostClassPolicy := [{ hostId := 1, cls := 1 }, { hostId := 1, cls := 2 }]
        classVtime :=
          [{ hostId := 1, cls := 1, vtime := lead, active := true },
            { hostId := 1, cls := 2, vtime := 0, active := true }]
        commandTemplates := [{ templateId := 0, version := 0 }]
        schedParents := [{ id := 1, account := 1, prioClass := .normal, agingAnchor := some 0 }]
        groups :=
          [{ id := 1, account := 1, owner := 2, parentId := 1, agingAnchor := some 0,
              state := .active },
            { id := 2, account := 1, owner := 2, parentId := 1, agingAnchor := some 0,
              state := .active }]
        jobs :=
          [{ id := 1, groupId := 1, cls := 1, estP50S := 900 },
            { id := 2, groupId := 2, cls := 2 }] } }

theorem picksFirst_numericRound9_twoClasses :
    (twoClasses 1).db.ClassOfParent ∧ (twoClasses 1).PicksFirst numericRound9 :=
  ⟨by decide, picksFirst_numericRound9 (twoClasses 1) (by decide)⟩

/-- Class 1 is ahead by less than the rounding shows, and its longer job is picked. -/
theorem not_picksFirst_id : ¬ (twoClasses (1 / 10000000000)).PicksFirst id := by
  intro h
  have hpick : (((twoClasses (1 / 10000000000)).pickBy numericRound9).map fun r => r.job.id) =
      some 1 := by
    decide +kernel
  obtain ⟨r, hr, hid⟩ := Option.map_eq_some_iff.1 hpick
  obtain ⟨c, hc, hjob, -, hfirst⟩ := h.2 r hr
  have hall : ∀ c ∈ (twoClasses (1 / 10000000000)).fitting, c.job.id = 1 →
      ∃ d ∈ (twoClasses (1 / 10000000000)).fitting,
        (twoClasses (1 / 10000000000)).flatKey id d <
          (twoClasses (1 / 10000000000)).flatKey id c := by
    decide +kernel
  obtain ⟨d, hd, hlt⟩ := hall c hc (by rw [hjob, hid])
  exact hfirst d hd hlt

/-- The groups of one parent, of which the second has a higher class than the parent. -/
def strayGroup : Scan :=
  { twoClasses 0 with
    db :=
      { (twoClasses 0).db with
        priorityClasses :=
          [{ name := .normal, rank := 2, codPerMin := 2 },
            { name := .gate, rank := 3, codPerMin := 4 }]
        groups :=
          [{ id := 1, account := 1, owner := 2, parentId := 1, agingAnchor := some 0,
              state := .active },
            { id := 2, account := 1, owner := 2, parentId := 1, prioClass := .gate,
              agingAnchor := some 1, state := .active }]
        jobs := [{ id := 1, groupId := 1, cls := 1 }, { id := 2, groupId := 2, cls := 1 }] } }

/-- The older sibling hides the group of the higher class. -/
theorem not_picksFirst_strayGroup : ¬ strayGroup.PicksFirst numericRound9 := by
  intro h
  have hpick : ((strayGroup.pickBy numericRound9).map fun r => r.job.id) = some 1 := by
    decide +kernel
  obtain ⟨r, hr, hid⟩ := Option.map_eq_some_iff.1 hpick
  obtain ⟨c, hc, hjob, -, hfirst⟩ := h.2 r hr
  have hall : ∀ c ∈ strayGroup.fitting, c.job.id = 1 →
      ∃ d ∈ strayGroup.fitting,
        strayGroup.flatKey numericRound9 d < strayGroup.flatKey numericRound9 c := by
    decide +kernel
  obtain ⟨d, hd, hlt⟩ := hall c hc (by rw [hjob, hid])
  exact hfirst d hd hlt

/-- **The unrounded order, and the order of stray groups, are not kept.** -/
theorem not_forall_picksFirst :
    (¬ ∀ s : Scan, s.db.ClassOfParent → s.PicksFirst id) ∧
      ¬ ∀ s : Scan, s.PicksFirst numericRound9 :=
  ⟨fun h => not_picksFirst_id (h _ (by decide)), fun h => not_picksFirst_strayGroup (h _)⟩

end Scan
end LaneDb
end LaneBroker
