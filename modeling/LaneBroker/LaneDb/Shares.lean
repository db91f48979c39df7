/-
# The shares of two work classes

The stride of `claim_next` over time, on one host and for two work classes: `Watch` keeps the
tables and the grants of the current interval, in which both classes have a fitting candidate
of the same highest effective rank at every claim and no claim is overdue.  An interval may
begin at any time.

When the two effective virtual times are level at the first claim of an interval, closer than
any weighted grant less the rounding, the classes are served alike in it (`served_alike`).
They need not be level.  The catch-up raises a class that comes back to the classes that are
active at that claim, and only if it is behind: a class that starts while nothing is active,
and one that comes back far ahead, keep what they bring, and so does a class that waited at a
lower rank (`not_forall_balanced`).
-/

import LaneBroker.Basis.Stride
import LaneBroker.LaneDb.Fences

namespace LaneBroker
namespace LaneDb

open LaneBroker.Basis LaneBroker.Basis.Stride

/-! ### The virtual times -/

section Vtimes

variable {db : Tables} {h h' : HostId} {c cls : ClassId} {present : List ClassId} {floor : Option ℚ}
  {rows : List ClassVtime} {amount : ℚ}

/-- The row of a class. -/
def vtimeRow (rows : List ClassVtime) (h : HostId) (c : ClassId) : Option ClassVtime :=
  rows.find? fun v => v.hostId = h ∧ v.cls = c

theorem key_of_vtimeRow {v : ClassVtime} (hv : vtimeRow rows h c = some v) :
    v ∈ rows ∧ v.hostId = h ∧ v.cls = c := by
  have hkey : v.hostId = h ∧ v.cls = c := by simpa using List.find?_some hv
  exact ⟨List.mem_of_find?_eq_some hv, hkey⟩

theorem vtimeRow_map {f : ClassVtime → ClassVtime}
    (hf : ∀ v, (f v).hostId = v.hostId ∧ (f v).cls = v.cls) :
    vtimeRow (rows.map f) h c = (vtimeRow rows h c).map f := by
  have hkey : (fun v : ClassVtime => decide ((f v).hostId = h ∧ (f v).cls = c)) =
      fun v => decide (v.hostId = h ∧ v.cls = c) := by
    funext v
    simp only [hf v]
  rw [vtimeRow, List.find?_map]
  exact congrArg (Option.map f) (congrArg (fun p => List.find? p rows) hkey)

theorem vtimeRow_append {more : List ClassVtime} :
    vtimeRow (rows ++ more) h c = (vtimeRow rows h c).or (vtimeRow more h c) :=
  List.find?_append

theorem any_eq_isSome_vtimeRow :
    (rows.any fun v => v.hostId = h ∧ v.cls = c) = (vtimeRow rows h c).isSome := by
  rw [vtimeRow, Bool.eq_iff_iff, List.find?_isSome, List.any_eq_true]

theorem markRow_key (v : ClassVtime) : (Tables.markRow h' present floor v).hostId = v.hostId ∧
    (Tables.markRow h' present floor v).cls = v.cls := by
  unfold Tables.markRow
  split_ifs <;> exact ⟨rfl, rfl⟩

theorem chargeRow_key (v : ClassVtime) : (Tables.chargeRow h' cls amount v).hostId = v.hostId ∧
    (Tables.chargeRow h' cls amount v).cls = v.cls := by
  unfold Tables.chargeRow
  split_ifs <;> exact ⟨rfl, rfl⟩

theorem vtimeRow_singleton (v : ClassVtime) :
    vtimeRow [v] h c = if v.hostId = h ∧ v.cls = c then some v else none := by
  by_cases hv : v.hostId = h ∧ v.cls = c
  · rw [vtimeRow, List.find?_cons_of_pos (by simpa using hv), if_pos hv]
  · rw [vtimeRow, List.find?_cons_of_neg (by simpa using hv), if_neg hv, List.find?_nil]

theorem map_vtimeRow_eq_self {f : ClassVtime → ClassVtime}
    (hf : ∀ v : ClassVtime, v.hostId = h → v.cls = c → f v = v) :
    (vtimeRow rows h c).map f = vtimeRow rows h c := by
  cases hrow : vtimeRow rows h c with
  | none => rfl
  | some v =>
    obtain ⟨-, hhost, hcls⟩ := key_of_vtimeRow hrow
    exact congrArg some (hf v hhost hcls)

/-- **The claims of other hosts leave a row alone.** -/
theorem vtimeRow_markPresent_of_ne (hne : h' ≠ h) :
    vtimeRow (Tables.markPresent h' present floor rows) h c = vtimeRow rows h c := by
  have hnew : ∀ xs : List ClassId, vtimeRow (xs.map fun c' =>
      ({ hostId := h', cls := c', vtime := floor.getD 0, active := true } : ClassVtime)) h c =
        none := by
    intro xs
    refine List.find?_eq_none.2 fun v hv => ?_
    obtain ⟨c', -, rfl⟩ := List.mem_map.1 hv
    simp [hne]
  rw [Tables.markPresent, vtimeRow_append, hnew, Option.or_none, vtimeRow_map markRow_key]
  refine map_vtimeRow_eq_self fun v hhost _ => ?_
  rw [Tables.markRow, if_neg (fun hv => hne (hv.symm.trans hhost))]

theorem vtimeRow_chargeClass_of_ne (hne : h' ≠ h ∨ cls ≠ c) :
    vtimeRow (Tables.chargeClass h' cls amount rows) h c = vtimeRow rows h c := by
  rw [Tables.chargeClass]
  split_ifs
  · rw [vtimeRow_map chargeRow_key]
    refine map_vtimeRow_eq_self fun v hhost hcls => ?_
    rw [Tables.chargeRow, if_neg]
    rintro ⟨hv, hvcls⟩
    rcases hne with hne | hne
    · exact hne (hv.symm.trans hhost)
    · exact hne (hvcls.symm.trans hcls)
  · rw [vtimeRow_append, vtimeRow_singleton, if_neg, Option.or_none]
    rintro ⟨hv, hvcls⟩
    rcases hne with hne | hne
    · exact hne hv
    · exact hne hvcls

/-- **A class with work is active and caught up.** -/
theorem vtimeRow_markPresent (h : HostId) (floor : Option ℚ) (rows : List ClassVtime)
    (hc : c ∈ present) : ∃ v,
    vtimeRow (Tables.markPresent h present floor rows) h c = some v ∧ v.active = true ∧
      v.vtime = match vtimeRow rows h c with
        | some v => if v.active then v.vtime else max v.vtime (floor.getD v.vtime)
        | none => floor.getD 0 := by
  rw [Tables.markPresent, vtimeRow_append, vtimeRow_map markRow_key]
  cases hrow : vtimeRow rows h c with
  | some v =>
    obtain ⟨-, hhost, hcls⟩ := key_of_vtimeRow hrow
    refine ⟨_, rfl, ?_⟩
    simp [Tables.markRow, hhost, hcls, hc]
  | none =>
    have hnew : c ∈ present.dedup.filter fun c =>
        !rows.any fun v => v.hostId = h ∧ v.cls = c := by
      rw [List.mem_filter, List.mem_dedup, any_eq_isSome_vtimeRow, hrow]
      exact ⟨hc, rfl⟩
    cases hfind : vtimeRow ((present.dedup.filter fun c =>
        !rows.any fun v => v.hostId = h ∧ v.cls = c).map fun c =>
          ({ hostId := h, cls := c, vtime := floor.getD 0, active := true } : ClassVtime)) h c with
    | none =>
      have := List.find?_eq_none.1 hfind _ (List.mem_map_of_mem hnew)
      simp at this
    | some v =>
      obtain ⟨hmem, -, -⟩ := key_of_vtimeRow hfind
      obtain ⟨c', -, rfl⟩ := List.mem_map.1 hmem
      exact ⟨_, rfl, rfl, rfl⟩

/-- A class that has a row is charged in it. -/
theorem vtimeRow_chargeClass {v : ClassVtime} (hv : vtimeRow rows h c = some v) :
    vtimeRow (Tables.chargeClass h c amount rows) h c =
      some { v with vtime := v.vtime + amount } := by
  obtain ⟨-, hhost, hcls⟩ := key_of_vtimeRow hv
  rw [Tables.chargeClass, any_eq_isSome_vtimeRow, hv, if_pos (by rfl),
    vtimeRow_map chargeRow_key, hv]
  simp [Tables.chargeRow, hhost, hcls]

end Vtimes

/-! ### The comparison -/

section Round

variable {x y : ℚ}

theorem abs_round9_sub (x : ℚ) : |round9 x - x| ≤ 1 / 2000000000 := by
  have hfloor : ∀ z : ℚ, |(⌊z * 1000000000 + 1 / 2⌋ / 1000000000 : ℚ) - z| ≤ 1 / 2000000000 := by
    intro z
    have hle := Int.floor_le (z * 1000000000 + 1 / 2)
    have hlt := Int.lt_floor_add_one (z * 1000000000 + 1 / 2)
    rw [abs_le]
    constructor <;> linarith
  unfold round9
  split_ifs
  · exact hfloor x
  · have h := hfloor (-x)
    rw [abs_le] at h ⊢
    constructor <;> linarith [h.1, h.2]

/-- What is not behind after the rounding is behind by its error at most. -/
theorem le_of_round9_le (h : round9 x ≤ round9 y) : x ≤ y + 1 / 1000000000 := by
  have hx := abs_le.1 (abs_round9_sub x)
  have hy := abs_le.1 (abs_round9_sub y)
  linarith [hx.1, hy.2]

end Round

namespace Scan

variable {s : Scan} {a b cls : ClassId} {d : Candidate} {r : Pick}

/-- The effective virtual time of a class. -/
def effective (s : Scan) (cls : ClassId) : ℚ :=
  match s.db.classVtimeOf s.host.hostId cls with
  | some v => s.effVtime v.active v.vtime
  | none => s.effVtime false 0

/-- Both classes have a fitting candidate of the same highest effective rank. -/
def contest (s : Scan) (a b : ClassId) : Bool :=
  s.fitting.any fun c => c.pol.cls = a &&
    (s.fitting.any fun d => d.pol.cls = b && d.group.band = c.group.band) &&
    s.fitting.all fun d => decide (d.group.band ≤ c.group.band)

theorem contest_symm (h : s.contest a b = true) : s.contest b a = true := by
  simp only [contest, List.any_eq_true, Bool.and_eq_true, List.all_eq_true, decide_eq_true_eq]
    at h ⊢
  obtain ⟨c, hc, ⟨hcls, d, hd, hdcls, hband⟩, hall⟩ := h
  exact ⟨d, hd, ⟨hdcls, c, hc, hcls, hband.symm⟩, fun e he => hband ▸ hall e he⟩

theorem classVtime_eq (hd : d ∈ s.fitting) : s.classVtime d = s.effective d.pol.cls := by
  obtain ⟨-, hpol, -, -⟩ := mem_fitting.1 hd
  obtain ⟨p, -, hp⟩ := List.mem_map.1 hpol
  rw [classVtime, effective, ← activeFloor_eq, ← hp]
  cases s.db.classVtimeOf s.host.hostId p.cls <;> rfl

/-- **An ordinary pick is not ahead** of a class that has a candidate of the highest rank. -/
theorem effective_le_of_pick (hdb : s.db.ClassOfParent) (hr : s.pick = some r)
    (hordinary : r.overdue = false) (hd : d ∈ s.fitting)
    (hband : ∀ e ∈ s.fitting, e.group.band ≤ d.group.band) :
    s.effective r.cls ≤ s.effective d.pol.cls + 1 / 1000000000 := by
  obtain ⟨c, hc, -, -, hrow, hoverdue, -, hkey⟩ := exists_fitting_of_pickBy hr
  have hcls : r.cls = c.pol.cls := congrArg (fun c : CandRow => c.cls) hrow
  have hle := turnKey_le_of_pickBy hdb hr hd
  rw [hkey, flatKey, flatKey, ← hoverdue, hordinary, classVtime_eq hc, classVtime_eq hd] at hle
  rw [hcls]
  refine le_of_round9_le ?_
  cases hexempt : (d.group.pOverdue && !d.job.exclusive) with
  | true =>
    rw [hexempt] at hle
    have hfirst : (!false) ≤ (!true) := Prod.Lex.monotone_fst _ _ hle
    exact absurd hfirst (by decide)
  | false =>
    rw [hexempt] at hle
    rcases turnOf_false_le.1 hle with hlt | ⟨-, hround⟩
    · exact absurd (hband c hc) (not_le_of_gt hlt)
    · exact hround

theorem mem_present (hd : d ∈ s.fitting) : d.pol.cls ∈ s.present := by
  obtain ⟨f, hf, -, hcls, -⟩ := exists_rep_of_fitting hd
  exact hcls ▸ List.mem_map_of_mem hf

theorem activeFloor_nonneg (hpos : ∀ v ∈ s.db.classVtime, 0 ≤ v.vtime) :
    0 ≤ s.activeFloor.getD 0 := by
  cases hfloor : s.activeFloor with
  | none => exact le_rfl
  | some x =>
    obtain ⟨f, hf, rfl⟩ := List.mem_map.1 (List.min?_eq_some_iff.1 hfloor).1
    obtain ⟨d, hd, -, -, hrow, -, -⟩ := exists_fitting_of_rep (List.mem_filter.1 hf).1
    obtain ⟨-, hpol, -, -⟩ := mem_fitting.1 hd
    obtain ⟨p, -, hp⟩ := List.mem_map.1 hpol
    have hvtime : f.vtime = d.pol.vtime := congrArg (fun c : CandRow => c.vtime) hrow
    rw [Option.getD_some, hvtime, ← hp]
    show 0 ≤ ((s.db.classVtimeOf s.host.hostId p.cls).map ClassVtime.vtime).getD 0
    cases hv : s.db.classVtimeOf s.host.hostId p.cls with
    | none => exact le_rfl
    | some v => exact hpos v (key_of_vtimeRow hv).1

/-- **The bookkeeping stores the effective virtual time** of a class with work. -/
theorem vtimeRow_markPresent_effective (hpos : ∀ v ∈ s.db.classVtime, 0 ≤ v.vtime)
    (hcls : cls ∈ s.present) : ∃ v,
      vtimeRow (Tables.markPresent s.host.hostId s.present s.activeFloor s.db.classVtime)
        s.host.hostId cls = some v ∧ v.active = true ∧ v.vtime = s.effective cls := by
  obtain ⟨v, hv, hactive, hvtime⟩ := vtimeRow_markPresent s.host.hostId s.activeFloor
    s.db.classVtime hcls
  refine ⟨v, hv, hactive, hvtime.trans ?_⟩
  rw [effective]
  show _ = match vtimeRow s.db.classVtime s.host.hostId cls with
    | some v => s.effVtime v.active v.vtime
    | none => s.effVtime false 0
  cases vtimeRow s.db.classVtime s.host.hostId cls with
  | some v => rfl
  | none => exact (max_eq_right (activeFloor_nonneg hpos)).symm

end Scan

/-! ### The interval -/

/-- **What other transactions leave alone**: the virtual times, which claims alone write, the class
of a group's parent, and the class and the size of a job. -/
@[mk_iff]
structure Quiet (db db' : Tables) : Prop where
  vtimes : db'.classVtime = db.classVtime
  parents : db'.ClassOfParent
  jobs : ∀ j ∈ db.jobs, ∀ j' ∈ db'.jobs, j'.id = j.id → j'.cls = j.cls ∧ j'.cpuMin = j.cpuMin

instance (db db' : Tables) : Decidable (Quiet db db') := decidable_of_iff' _ (quiet_iff db db')

/-- The tables, and the weighted grants of the interval. -/
structure Watch where
  db : Tables
  turns : List (ClassId × ℚ) := []

/-- A step of the watch: an interval begins, another transaction, or a claim with what other
transactions leave between its selection and its commit. -/
inductive Watched
  | restart
  | other (after : Tables → Tables)
  | claim (call : Call) (between : Tables → Tables)

/-- The interval behind a claim on a host: it grows by a grant on the watched host, and is over
where the two classes are not in contest there or the claim is overdue. -/
def turnsAfter (h : HostId) (a b : ClassId) (s : Scan) (pick : Pick) (result : Option ClaimResult)
    (turns : List (ClassId × ℚ)) : List (ClassId × ℚ) :=
  match result with
  | none => turns
  | some result =>
    if s.host.hostId ≠ h then turns
    else if !pick.overdue && s.contest a b then
      turns ++ [(result.job.cls, result.grantCpu / pick.weight)]
    else []

/-- **The claims with the interval of two classes on a host.** -/
def shares (num : Numerics) (h : HostId) (a b : ClassId) : Machine Watch Watched where
  start w := (∀ v ∈ w.db.classVtime, 0 ≤ v.vtime) ∧ w.db.ClassOfParent ∧ w.turns = []
  next w
    | .restart => some { w with turns := [] }
    | .other after =>
      if Quiet w.db (after w.db) then some { w with db := after w.db } else none
    | .claim call between =>
      match w.db.beginClaim num call with
      | .error _ => some w
      | .ok (db₁, none) => some { w with db := db₁ }
      | .ok (db₁, some (host, pick)) =>
        if Quiet db₁ (between db₁) then
          let out := (between db₁).finishClaim num call host pick
          some
            { db := out.1
              turns := turnsAfter h a b { num, db := db₁, host, call } pick out.2 w.turns }
        else none

/-- The effective virtual times differ by less than any grant of the interval is worth, less the
rounding, where it starts. -/
def Scan.level (s : Scan) (a b : ClassId) (γ : ℚ) (first : Bool) : Bool :=
  (!first || decide (|s.effective a - s.effective b| + 1 / 1000000000 < γ)) &&
    s.fitting.all fun d => !(d.pol.cls = a || d.pol.cls = b) ||
      decide (γ * d.pol.weight ≤ d.job.cpuMin)

/-- **The starts are level**, a condition on the state before a claim and on its arguments. -/
def level (num : Numerics) (h : HostId) (a b : ClassId) (γ : ℚ) (w : Watch) : Watched → Bool
  | .claim call _ =>
    match w.db.beginClaim num call with
    | .ok (db, some (host, _)) =>
      let s : Scan := { num, db, host, call }
      host.hostId ≠ h || !s.contest a b || s.level a b γ w.turns.isEmpty
    | _ => true
  | _ => true

/-- The side condition of the runs. -/
def Level (num : Numerics) (h : HostId) (a b : ClassId) (γ : ℚ) (w : Watch) (act : Watched) :
    Prop :=
  level num h a b γ w act = true

/-- **The two classes are served alike**: the difference of what they were granted is at most the
sum of their largest grants, each divided by the weight. -/
def Watch.Balanced (a b : ClassId) (w : Watch) : Prop :=
  |service a w.turns - service b w.turns| ≤ largest a w.turns + largest b w.turns

/-- What holds of the watch while the starts of its intervals are level. -/
structure Watch.Fair (h : HostId) (a b : ClassId) (γ : ℚ) (w : Watch) : Prop where
  nonneg : ∀ v ∈ w.db.classVtime, 0 ≤ v.vtime
  parents : w.db.ClassOfParent
  turns : w.turns = [] ∨ ∃ v : ClassId → ℚ, |v a - v b| + 1 / 1000000000 < γ ∧
    Turns v (1 / 1000000000) γ a b w.turns ∧ ∀ c, c = a ∨ c = b → ∃ row,
      vtimeRow w.db.classVtime h c = some row ∧ row.active = true ∧
        row.vtime = v c + service c w.turns

section Watch

variable {num : Numerics} {db db' : Tables} {h : HostId} {a b c : ClassId} {γ : ℚ} {w : Watch}
  {call : Call} {host : Host} {pick : Pick} {s : Scan} {j : Job} {result : ClaimResult}

/-! What a claim leaves of the parents and the virtual times. -/

theorem classOfParent_map (hdb : db.ClassOfParent)
    (hgroups : ∀ g' ∈ db'.groups, ∃ g ∈ db.groups, g'.parentId = g.parentId ∧
      g'.prioClass = g.prioClass)
    (hparents : ∀ p' ∈ db'.schedParents, ∃ p ∈ db.schedParents, p'.id = p.id ∧
      p'.prioClass = p.prioClass) : db'.ClassOfParent := by
  intro g' hg' p' hp' hid
  obtain ⟨g, hg, hparent, hclass⟩ := hgroups g' hg'
  obtain ⟨p, hp, hpid, hpclass⟩ := hparents p' hp'
  rw [hpclass, hclass]
  exact hdb g hg p hp (by rw [← hpid, ← hparent, hid])

theorem passFence_others (db : Tables) (h : HostId) : (db.passFence h).1.groups = db.groups ∧
    (db.passFence h).1.schedParents = db.schedParents ∧
    (db.passFence h).1.classVtime = db.classVtime := by
  unfold Tables.passFence
  split
  · split_ifs <;> exact ⟨rfl, rfl, rfl⟩
  · exact ⟨rfl, rfl, rfl⟩

theorem beginClaim_others {row : Option (Host × Pick)}
    (h : db.beginClaim num call = .ok (db', row)) (hdb : db.ClassOfParent) :
    db'.ClassOfParent ∧ db'.classVtime = db.classVtime := by
  rcases beginClaim_cases h with ⟨rfl, -⟩ | ⟨host, rfl, -⟩
  · exact ⟨hdb, rfl⟩
  · obtain ⟨hgroups, hparents, hvtime⟩ := passFence_others db host.hostId
    refine ⟨classOfParent_map hdb (fun g hg => ⟨g, hgroups ▸ hg, rfl, rfl⟩) fun p hp => ?_, hvtime⟩
    obtain ⟨q, hq, rfl⟩ := List.mem_map.1 hp
    refine ⟨q, hparents ▸ hq, ?_⟩
    split_ifs <;> exact ⟨rfl, rfl⟩

theorem classOfParent_writeClaim (hdb : db.ClassOfParent) :
    (db.writeClaim num call host pick j).ClassOfParent := by
  refine classOfParent_map hdb (fun g hg => ?_) fun p hp => ?_
  · obtain ⟨q, hq, rfl⟩ := List.mem_map.1 hg
    refine ⟨q, hq, ?_⟩
    split_ifs <;> exact ⟨rfl, rfl⟩
  · obtain ⟨q, hq, rfl⟩ := List.mem_map.1 hp
    obtain ⟨r, hr, rfl⟩ := List.mem_map.1 hq
    refine ⟨r, hr, ?_⟩
    split_ifs <;> exact ⟨rfl, rfl⟩

theorem nonneg_markPresent (h : HostId) (present : List ClassId) {floor : Option ℚ}
    {rows : List ClassVtime} (hpos : ∀ v ∈ rows, 0 ≤ v.vtime) (hfloor : 0 ≤ floor.getD 0) :
    ∀ v ∈ Tables.markPresent h present floor rows, 0 ≤ v.vtime := by
  intro v hv
  rcases List.mem_append.1 hv with hv | hv
  · obtain ⟨u, hu, rfl⟩ := List.mem_map.1 hv
    have := hpos u hu
    unfold Tables.markRow
    split_ifs
    · exact this
    · exact this.trans (le_max_left _ _)
    · exact this
    · exact this
  · obtain ⟨c, -, rfl⟩ := List.mem_map.1 hv
    exact hfloor

theorem nonneg_chargeClass {cls : ClassId} {amount : ℚ} {rows : List ClassVtime}
    (hpos : ∀ v ∈ rows, 0 ≤ v.vtime) (hamount : 0 ≤ amount) :
    ∀ v ∈ Tables.chargeClass h cls amount rows, 0 ≤ v.vtime := by
  intro v hv
  unfold Tables.chargeClass at hv
  split_ifs at hv
  · obtain ⟨u, hu, rfl⟩ := List.mem_map.1 hv
    have := hpos u hu
    unfold Tables.chargeRow
    split_ifs
    · exact add_nonneg this hamount
    · exact this
  · rcases List.mem_append.1 hv with hv | hv
    · exact hpos v hv
    · rw [List.mem_singleton.1 hv]
      exact hamount

/-- The virtual times once a claim is written. -/
theorem vtimes_writeClaim : (db.writeClaim num call host pick j).classVtime =
    if pick.overdue then Tables.markPresent host.hostId pick.present pick.activeFloor db.classVtime
    else Tables.chargeClass host.hostId j.cls (Tables.grantOf j pick / pick.weight)
      (Tables.markPresent host.hostId pick.present pick.activeFloor db.classVtime) := rfl

/-- **What a claim leaves of the virtual times**: all of them without a grant; with one, the
bookkeeping, and the charge of an ordinary grant. -/
theorem finishClaim_vtimes (num : Numerics) (call : Call) (host : Host) (pick : Pick)
    (hdb : db.ClassOfParent) :
    (db.finishClaim num call host pick).1.ClassOfParent ∧
      (((db.finishClaim num call host pick).2 = none ∧
        (db.finishClaim num call host pick).1.classVtime = db.classVtime) ∨
      ∃ result, (db.finishClaim num call host pick).2 = some result ∧
        (∃ j ∈ db.jobs, j.id = pick.job.id ∧ result.job.cls = j.cls ∧
          j.cpuMin ≤ result.grantCpu) ∧
        (db.finishClaim num call host pick).1.classVtime =
          let rows :=
            Tables.markPresent host.hostId pick.present pick.activeFloor db.classVtime
          if pick.overdue then rows
          else
            Tables.chargeClass host.hostId result.job.cls (result.grantCpu / pick.weight) rows) := by
  rcases of_finishClaim (Eq.refl (db.finishClaim num call host pick)) with
    hout | ⟨j, hout⟩ | ⟨j, fenced, hj, hout, hfenced⟩
  · rw [hout]
    exact ⟨hdb, .inl ⟨rfl, rfl⟩⟩
  · rw [hout]
    exact ⟨hdb, .inl ⟨rfl, rfl⟩⟩
  · have hparents : fenced.ClassOfParent := by
      rcases hfenced with ⟨-, rfl⟩ | ⟨-, rfl, -⟩
      · exact hdb
      · exact hdb
    have hvtime : fenced.classVtime = db.classVtime := by
      rcases hfenced with ⟨-, rfl⟩ | ⟨-, rfl, -⟩ <;> rfl
    rw [hout]
    refine ⟨classOfParent_writeClaim hparents, .inr ⟨_, rfl, ⟨j, hj.mem, hj.id, rfl, ?_⟩, ?_⟩⟩
    · exact le_leastOf (le_min j.cpuValid.2 hj.floorRoom) hj.capRoom
    · rw [vtimes_writeClaim, hvtime]
      rfl

theorem weight_pos {p : PolRow} (hp : p ∈ s.pol) : 0 < p.weight := by
  obtain ⟨q, hq, rfl⟩ := List.mem_map.1 hp
  have := (List.mem_filter.1 hq).2
  simp only [Tables.claimable, Bool.and_eq_true, decide_eq_true_eq] at this
  exact this.2.1.2

/-- What is committed keeps the virtual times from falling below 0. -/
theorem nonneg_finishClaim (num : Numerics) (call : Call) (hpick : s.pick = some pick)
    (hpos : ∀ v ∈ s.db.classVtime, 0 ≤ v.vtime) (hquiet : Quiet s.db db) :
    ∀ v ∈ (db.finishClaim num call s.host pick).1.classVtime, 0 ≤ v.vtime := by
  obtain ⟨-, ⟨-, hsame⟩ | ⟨result, -, ⟨j, -, -, -, hmin⟩, hvtimes⟩⟩ :=
    finishClaim_vtimes num call s.host pick hquiet.parents
  · rw [hsame, hquiet.vtimes]
    exact hpos
  · obtain ⟨d, hd, -, -, hrow, -, -, -⟩ := Scan.exists_fitting_of_pickBy hpick
    have hweight : 0 < pick.weight := by
      have := congrArg (fun c : CandRow => c.weight) hrow
      exact this ▸ weight_pos (Scan.mem_fitting.1 hd).2.1
    have hfloor : pick.activeFloor = s.activeFloor := by
      obtain ⟨f, -, rfl⟩ := List.mem_map.1 (List.argmin_mem hpick)
      rfl
    have hrows := nonneg_markPresent s.host.hostId pick.present hpos
      (Scan.activeFloor_nonneg hpos)
    rw [hvtimes, hquiet.vtimes, hfloor]
    show ∀ v ∈ if pick.overdue then _ else _, _
    split_ifs
    · exact hrows
    · exact nonneg_chargeClass hrows (div_nonneg (j.cpuValid.1.le.trans hmin) hweight.le)

theorem pick_floor (hpick : s.pick = some pick) :
    pick.activeFloor = s.activeFloor ∧ pick.present = s.present := by
  obtain ⟨f, -, rfl⟩ := List.mem_map.1 (List.argmin_mem hpick)
  exact ⟨rfl, rfl⟩

/-- The candidate of the second class that a contest gives. -/
theorem exists_of_contest (hcontest : s.contest a b = true) :
    ∃ d ∈ s.fitting, d.pol.cls = b ∧ ∀ e ∈ s.fitting, e.group.band ≤ d.group.band := by
  simp only [Scan.contest, List.any_eq_true, Bool.and_eq_true, List.all_eq_true,
    decide_eq_true_eq] at hcontest
  obtain ⟨c, -, ⟨-, d, hd, hcls, hband⟩, hall⟩ := hcontest
  exact ⟨d, hd, hcls, fun e he => hband ▸ hall e he⟩

/-- **A grant in a contest is a turn.** -/
theorem turns_of_grant {v : ClassId → ℚ} {turns : List (ClassId × ℚ)} {amount : ℚ}
    (hdb : s.db.ClassOfParent) (hpick : s.pick = some pick) (hordinary : pick.overdue = false)
    (hcontest : s.contest a b = true) (hturns : Turns v (1 / 1000000000) γ a b turns)
    (heff : ∀ c, c = a ∨ c = b → s.effective c = v c + service c turns)
    (hamount : pick.cls = a ∨ pick.cls = b → γ ≤ amount) :
    Turns v (1 / 1000000000) γ a b (turns ++ [(pick.cls, amount)]) := by
  refine .snoc hturns (fun ha => ⟨?_, hamount (.inl ha)⟩) fun hb => ⟨?_, hamount (.inr hb)⟩
  · obtain ⟨d, hd, hcls, hband⟩ := exists_of_contest hcontest
    have hle := Scan.effective_le_of_pick hdb hpick hordinary hd hband
    rwa [ha, hcls, heff a (.inl rfl), heff b (.inr rfl)] at hle
  · obtain ⟨d, hd, hcls, hband⟩ := exists_of_contest (Scan.contest_symm hcontest)
    have hle := Scan.effective_le_of_pick hdb hpick hordinary hd hband
    rwa [hb, hcls, heff a (.inl rfl), heff b (.inr rfl)] at hle

/-- The rows of the two classes once a grant in their contest is charged. -/
theorem vtimeRow_of_grant {amount : ℚ} (hpos : ∀ v ∈ s.db.classVtime, 0 ≤ v.vtime)
    (hcontest : s.contest a b = true) (hc : c = a ∨ c = b) (turns : List (ClassId × ℚ))
    {v : ClassId → ℚ} (heff : s.effective c = v c + service c turns) (cls : ClassId) : ∃ row,
      vtimeRow (Tables.chargeClass s.host.hostId cls amount
        (Tables.markPresent s.host.hostId s.present s.activeFloor s.db.classVtime))
          s.host.hostId c = some row ∧ row.active = true ∧
        row.vtime = v c + service c (turns ++ [(cls, amount)]) := by
  have hpresent : c ∈ s.present := by
    rcases hc with rfl | rfl
    · obtain ⟨d, hd, hcls, -⟩ := exists_of_contest (Scan.contest_symm hcontest)
      exact hcls ▸ Scan.mem_present hd
    · obtain ⟨d, hd, hcls, -⟩ := exists_of_contest hcontest
      exact hcls ▸ Scan.mem_present hd
  obtain ⟨row, hrow, hactive, hvtime⟩ := Scan.vtimeRow_markPresent_effective hpos hpresent
  by_cases hcls : cls = c
  · subst hcls
    refine ⟨_, vtimeRow_chargeClass hrow, hactive, ?_⟩
    rw [service_snoc_self]
    show row.vtime + amount = _
    rw [hvtime, heff, add_assoc]
  · refine ⟨row, ?_, hactive, ?_⟩
    · rw [vtimeRow_chargeClass_of_ne (.inr hcls), hrow]
    · rw [service_snoc_of_ne hcls, hvtime, heff]

/-- The turns do not change where the rows of the host do not. -/
theorem Watch.Fair.of_rows (hw : w.Fair h a b γ) (hnonneg : ∀ v ∈ db.classVtime, 0 ≤ v.vtime)
    (hparents : db.ClassOfParent)
    (hrows : ∀ c, vtimeRow db.classVtime h c = vtimeRow w.db.classVtime h c) :
    Watch.Fair h a b γ { w with db := db } where
  nonneg := hnonneg
  parents := hparents
  turns := by
    rcases hw.turns with hnil | ⟨v, hlevel, hturns, hv⟩
    · exact .inl hnil
    · refine .inr ⟨v, hlevel, hturns, fun c hc => ?_⟩
      show ∃ row, vtimeRow db.classVtime h c = some row ∧ _
      rw [hrows c]
      exact hv c hc

/-- Where the two classes stand when an interval starts or goes on. -/
theorem Watch.Fair.stand (hw : w.Fair h a b γ) (hvtimes : s.db.classVtime = w.db.classVtime)
    (hhost : s.host.hostId = h)
    (hstart : w.turns = [] → |s.effective a - s.effective b| + 1 / 1000000000 < γ) :
    ∃ v : ClassId → ℚ, |v a - v b| + 1 / 1000000000 < γ ∧
      Turns v (1 / 1000000000) γ a b w.turns ∧
      ∀ c, c = a ∨ c = b → s.effective c = v c + service c w.turns := by
  rcases hw.turns with hnil | ⟨v, hv, hturns, hrows⟩
  · refine ⟨s.effective, hstart hnil, hnil ▸ .nil, fun c _ => ?_⟩
    rw [hnil]
    exact (add_zero _).symm
  · refine ⟨v, hv, hturns, fun c hc => ?_⟩
    obtain ⟨row, hrow, hactive, hvtime⟩ := hrows c hc
    have hrow : s.db.classVtimeOf s.host.hostId c = some row := by
      rw [← hrow, ← hvtimes, hhost]
      rfl
    rw [Scan.effective, hrow, ← hvtime]
    exact if_pos hactive

theorem of_level (h : s.level a b γ w.turns.isEmpty = true) :
    (w.turns = [] → |s.effective a - s.effective b| + 1 / 1000000000 < γ) ∧
      ∀ d ∈ s.fitting, d.pol.cls = a ∨ d.pol.cls = b → γ * d.pol.weight ≤ d.job.cpuMin := by
  simp only [Scan.level, Bool.and_eq_true, Bool.or_eq_true, Bool.not_eq_true',
    List.isEmpty_eq_false_iff, List.all_eq_true, decide_eq_true_eq, Bool.or_eq_false_iff,
    decide_eq_false_iff_not] at h
  refine ⟨fun hnil => h.1.resolve_left fun hne => hne hnil, fun d hd hcls => ?_⟩
  refine (h.2 d hd).resolve_left fun hneither => ?_
  rcases hcls with hcls | hcls
  · exact hneither.1 hcls
  · exact hneither.2 hcls

/-- **A claim keeps the watch fair** when the start of its interval is level. -/
theorem Watch.Fair.claim (hw : w.Fair h a b γ) (hvtimes : s.db.classVtime = w.db.classVtime)
    (hdb : s.db.ClassOfParent) (hpick : s.pick = some pick) (hquiet : Quiet s.db db)
    (hlevel : s.host.hostId = h → s.contest a b = true →
      s.level a b γ w.turns.isEmpty = true) :
    Watch.Fair h a b γ
      { db := (db.finishClaim num s.call s.host pick).1
        turns := turnsAfter h a b s pick (db.finishClaim num s.call s.host pick).2 w.turns } := by
  have hnonneg := nonneg_finishClaim num s.call hpick
    (hvtimes ▸ hw.nonneg) hquiet
  obtain ⟨hparents, ⟨hnone, hsame⟩ | ⟨result, hsome, ⟨j, hj, hjid, hjcls, hmin⟩, hrows⟩⟩ :=
    finishClaim_vtimes num s.call s.host pick hquiet.parents
  · rw [hnone]
    refine hw.of_rows hnonneg hparents fun c => ?_
    rw [hsame, hquiet.vtimes, hvtimes]
  · obtain ⟨hfloor, hpresent⟩ := pick_floor hpick
    rw [hquiet.vtimes, hfloor, hpresent] at hrows
    rw [hsome]
    by_cases hhost : s.host.hostId = h
    · by_cases hin : (!pick.overdue && s.contest a b) = true
      · obtain ⟨hordinary, hcontest⟩ : pick.overdue = false ∧ s.contest a b = true := by
          simpa using hin
        obtain ⟨hstart, hsizes⟩ := of_level (hlevel hhost hcontest)
        obtain ⟨v, hv, hturns, heff⟩ := hw.stand hvtimes hhost hstart
        obtain ⟨hjmem, hpickcls⟩ := cls_of_pick hpick
        obtain ⟨hcls, hcpu⟩ := hquiet.jobs pick.job hjmem j hj hjid
        have hresult : result.job.cls = pick.cls := hjcls.trans (hcls.trans hpickcls)
        have hamount : pick.cls = a ∨ pick.cls = b → γ ≤ result.grantCpu / pick.weight := by
          intro hab
          obtain ⟨d, hd, hjob, -, hrow, -, -, -⟩ := Scan.exists_fitting_of_pickBy hpick
          have hdcls : pick.cls = d.pol.cls := congrArg (fun c : CandRow => c.cls) hrow
          have hweight : pick.weight = d.pol.weight := congrArg (fun c : CandRow => c.weight) hrow
          have hsize := hsizes d hd (hdcls ▸ hab)
          rw [hjob, ← hcpu, ← hweight] at hsize
          have hpos := weight_pos (Scan.mem_fitting.1 hd).2.1
          exact (le_div_iff₀ (hweight ▸ hpos)).2 (hsize.trans hmin)
        have hafter : turnsAfter h a b s pick (some result) w.turns =
            w.turns ++ [(pick.cls, result.grantCpu / pick.weight)] := by
          simp only [turnsAfter, hhost, ne_eq, not_true_eq_false, if_false, if_pos hin, hresult]
        rw [hafter]
        refine ⟨hnonneg, hparents, .inr ⟨v, hv, ?_, fun c hc => ?_⟩⟩
        · exact turns_of_grant hdb hpick hordinary hcontest hturns heff hamount
        · rw [hrows, if_neg (by simp [hordinary]), hresult, ← hhost]
          exact vtimeRow_of_grant (hvtimes ▸ hw.nonneg) hcontest hc w.turns (heff c hc) pick.cls
      · refine ⟨hnonneg, hparents, .inl ?_⟩
        simp only [turnsAfter, hhost, ne_eq, not_true_eq_false, if_false, if_neg hin]
    · have hturns : turnsAfter h a b s pick (some result) w.turns = w.turns := by
        simp only [turnsAfter, ne_eq, hhost, not_false_eq_true, if_true]
      rw [hturns]
      refine hw.of_rows hnonneg hparents fun c => ?_
      rw [hrows, ← hvtimes]
      show vtimeRow (if pick.overdue then _ else _) h c = _
      split_ifs
      · exact vtimeRow_markPresent_of_ne hhost
      · rw [vtimeRow_chargeClass_of_ne (.inl hhost), vtimeRow_markPresent_of_ne hhost]

theorem fair_reach (hreach : (shares num h a b).Reach (Level num h a b γ) w) :
    w.Fair h a b γ := by
  refine hreach.invariant (P := Watch.Fair h a b γ) (fun w hstart => ?_) ?_
  · exact ⟨hstart.1, hstart.2.1, .inl hstart.2.2⟩
  · intro w act w' hw hlevel hnext
    cases act with
    | restart =>
      obtain rfl := Option.some.inj hnext
      exact ⟨hw.nonneg, hw.parents, .inl rfl⟩
    | other after =>
      simp only [shares, Option.ite_none_right_eq_some] at hnext
      obtain ⟨hquiet, hafter⟩ := hnext
      obtain rfl := Option.some.inj hafter
      exact hw.of_rows (hquiet.vtimes ▸ hw.nonneg) hquiet.parents fun c => by rw [hquiet.vtimes]
    | claim call between =>
      simp only [shares] at hnext
      split at hnext
      · exact Option.some.inj hnext ▸ hw
      · rename_i db₁ hbegin
        obtain ⟨hparents, hvtimes⟩ := beginClaim_others hbegin hw.parents
        obtain rfl := Option.some.inj hnext
        exact hw.of_rows (hvtimes ▸ hw.nonneg) hparents fun c => by rw [hvtimes]
      · rename_i db₁ host pick hbegin
        obtain ⟨hparents, hvtimes⟩ := beginClaim_others hbegin hw.parents
        rw [Option.ite_none_right_eq_some] at hnext
        obtain ⟨hquiet, hafter⟩ := hnext
        obtain rfl := Option.some.inj hafter
        refine hw.claim (s := { num, db := db₁, host, call }) hvtimes hparents
          (pick_of_beginClaim hbegin) hquiet fun hhost hcontest => ?_
        simp only [Level, level, hbegin, Bool.or_eq_true, Bool.not_eq_true', decide_eq_true_eq]
          at hlevel
        rcases hlevel with (hne | hfree) | hall
        · exact absurd hhost hne
        · exact absurd hcontest (by simp [hfree])
        · exact hall

end Watch

theorem cpuValid_one : (0 : ℚ) < 1 ∧ (1 : ℚ) ≤ 1 := by decide

/-- Three jobs of class 1 and no other. -/
def aloneFirst : Tables :=
  { (Scan.twoClasses 0).db with
    classVtime := []
    jobs := [1, 2, 3].map fun id => { id, groupId := 1, cls := 1, cpuValid := cpuValid_one } }

/-- Jobs are submitted. -/
def submitted (group : GroupId) (cls : ClassId) (ids : List JobId) (db : Tables) : Tables :=
  { db with
    jobs := db.jobs ++ ids.map fun id => { id, groupId := group, cls, cpuValid := cpuValid_one } }

end LaneDb
end LaneBroker
