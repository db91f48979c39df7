/-
# Claims by any hosts

The claims of all hosts as a machine over the tables (`claims`).  The scheduling lock makes
one claim follow another; any other transaction may commit between two claims, and between the
selection of a claim and its commit, as long as the jobs in flight only complete
(`Elsewhere`).

What the fences keep over every run (`Fenced`): two jobs in flight of global scope have no
conflict key in common, and an exclusive job is alone on its host.  What every grant keeps
(`Granted`): it lies between `cpu_min` and the rooms, an ordinary one leaves the unmet floors
of the other classes free but for the rounding to a float4, and its job is of the open stage.
Together: `claims_safe`.
-/

import LaneBroker.Basis.Machine
import LaneBroker.LaneDb.Selection

namespace LaneBroker
namespace LaneDb

open LaneBroker.Basis

/-- **What other transactions leave of the jobs in flight**: they only complete.  What a claim wrote
for a job stays while the job is in flight; a job keeps its class and its id. -/
@[mk_iff]
structure Elsewhere (db db' : Tables) : Prop where
  ids : (db'.jobs.map Job.id).Nodup
  inFlight : ∀ j ∈ db'.jobs, j.inFlight = true → j ∈ db.jobs
  cls : ∀ j ∈ db.jobs, ∀ j' ∈ db'.jobs, j'.id = j.id → j'.cls = j.cls
  exclusions : ∀ x ∈ db.exclusions, (∃ j ∈ db'.jobs, j.id = x.jobId ∧ j.inFlight = true) →
    x ∈ db'.exclusions
  reservations : ∀ r ∈ db.hostReservations,
    (∃ j ∈ db'.jobs, j.id = r.ownerJobId ∧ j.inFlight = true ∧ j.host = some r.hostId) →
      ∃ r' ∈ db'.hostReservations, r'.hostId = r.hostId ∧ r'.ownerJobId = r.ownerJobId

instance (db db' : Tables) : Decidable (Elsewhere db db') :=
  decidable_of_iff' _ (elsewhere_iff db db')

/-- A step: a claim, with what other transactions leave between its selection and its commit; or
another transaction. -/
inductive Act
  | claim (call : Call) (between : Tables → Tables)
  | other (after : Tables → Tables)

/-- **The claims of all hosts.**  At the start no job is in flight. -/
def claims (num : Numerics) : Machine Tables Act where
  start db := (db.jobs.map Job.id).Nodup ∧ ∀ j ∈ db.jobs, j.inFlight = false
  next db
    | .other after => if Elsewhere db (after db) then some (after db) else none
    | .claim call between =>
      match db.beginClaim num call with
      | .error _ => some db
      | .ok (db₁, none) => some db₁
      | .ok (db₁, some (host, pick)) =>
        if Elsewhere db₁ (between db₁) then
          some ((between db₁).finishClaim num call host pick).1
        else none

/-- **What the fences keep.** -/
structure Fenced (db : Tables) : Prop where
  ids : (db.jobs.map Job.id).Nodup
  /-- The keys of a global job in flight are excluded. -/
  excluded : ∀ j ∈ db.jobs, j.inFlight = true → j.conflictScope = .global →
    ∀ k ∈ j.conflictKeys, ∃ x ∈ db.exclusions, x.key = k ∧ x.jobId = j.id
  /-- The host of an exclusive job in flight is reserved for it. -/
  reserved : ∀ j ∈ db.jobs, j.inFlight = true → j.exclusive = true → ∀ h, j.host = some h →
    ∃ r ∈ db.hostReservations, r.hostId = h ∧ r.ownerJobId = j.id
  /-- Global jobs in flight have no key in common. -/
  apart : ∀ j ∈ db.jobs, ∀ q ∈ db.jobs, j.inFlight = true → q.inFlight = true → j.id ≠ q.id →
    j.conflictScope = .global → q.conflictScope = .global → ∀ k ∈ j.conflictKeys,
      k ∉ q.conflictKeys
  /-- An exclusive job in flight is alone on its host. -/
  alone : ∀ j ∈ db.jobs, ∀ q ∈ db.jobs, j.inFlight = true → q.inFlight = true →
    j.exclusive = true → ∀ h, j.host = some h → q.host = some h → q.id = j.id

/-! ### Other transactions -/

section Elsewhere

variable {num : Numerics} {db db' : Tables} {call : Call} {host : Host} {j q : Job}

theorem Elsewhere.refl (h : (db.jobs.map Job.id).Nodup) : Elsewhere db db where
  ids := h
  inFlight _ hj _ := hj
  cls _ hj _ hj' hid := congrArg Job.cls (List.inj_on_of_nodup_map h hj' hj hid)
  exclusions _ hx _ := hx
  reservations r hr _ := ⟨r, hr, rfl, rfl⟩

theorem Fenced.elsewhere (h : Fenced db) (e : Elsewhere db db') : Fenced db' where
  ids := e.ids
  excluded j hj hfl hscope k hk := by
    obtain ⟨x, hx, hkey, hid⟩ := h.excluded j (e.inFlight j hj hfl) hfl hscope k hk
    exact ⟨x, e.exclusions x hx ⟨j, hj, hid.symm, hfl⟩, hkey, hid⟩
  reserved j hj hfl hexcl host hhost := by
    obtain ⟨r, hr, hrhost, hid⟩ := h.reserved j (e.inFlight j hj hfl) hfl hexcl host hhost
    obtain ⟨r', hr', hhost', hid'⟩ := e.reservations r hr ⟨j, hj, hid.symm, hfl, hrhost ▸ hhost⟩
    exact ⟨r', hr', hhost'.trans hrhost, hid'.trans hid⟩
  apart j hj q hq hjfl hqfl := h.apart j (e.inFlight j hj hjfl) q (e.inFlight q hq hqfl) hjfl hqfl
  alone j hj q hq hjfl hqfl := h.alone j (e.inFlight j hj hjfl) q (e.inFlight q hq hqfl) hjfl hqfl

theorem passFence_jobs (h : HostId) : (db.passFence h).1.jobs = db.jobs := by
  unfold Tables.passFence
  split
  · split_ifs <;> rfl
  · rfl

theorem passFence_exclusions (h : HostId) : (db.passFence h).1.exclusions = db.exclusions := by
  unfold Tables.passFence
  split
  · split_ifs <;> rfl
  · rfl

theorem passFence_reservations (h : HostId) : ∀ r ∈ db.hostReservations,
    ∃ r' ∈ (db.passFence h).1.hostReservations, r'.hostId = r.hostId ∧
      r'.ownerJobId = r.ownerJobId := by
  intro r hr
  unfold Tables.passFence
  split
  · split_ifs
    · exact ⟨r, hr, rfl, rfl⟩
    · refine ⟨_, List.mem_map_of_mem hr, ?_⟩
      split_ifs <;> exact ⟨rfl, rfl⟩
    · exact ⟨r, hr, rfl, rfl⟩
  · exact ⟨r, hr, rfl, rfl⟩

/-- **How the first half of a claim ends**: with nothing, or behind the fence with the row that is
picked, if any. -/
theorem beginClaim_cases {db₁ : Tables} {row : Option (Host × Pick)}
    (h : db.beginClaim num call = .ok (db₁, row)) :
    (db₁ = db ∧ row = none) ∨ ∃ host : Host,
      db₁ = (db.passFence host.hostId).1.refreshDemotions num call.now ∧
      row = (Scan.pick { num, db := db₁, host, call }).map fun pick => (host, pick) := by
  unfold Tables.beginClaim at h
  split at h
  · cases h
  · split_ifs at h
    split at h
    · cases h
      exact .inl ⟨rfl, rfl⟩
    · split_ifs at h
      · cases h
        exact .inl ⟨rfl, rfl⟩
      · cases h
        exact .inl ⟨rfl, rfl⟩
      · cases h
        exact .inr ⟨_, rfl, rfl⟩

/-- **What a claim has found when it has picked a row.** -/
theorem pick_of_beginClaim {pick : Pick} {db₁ : Tables}
    (h : db.beginClaim num call = .ok (db₁, some (host, pick))) :
    Scan.pick { num, db := db₁, host, call } = some pick := by
  rcases beginClaim_cases h with ⟨-, hrow⟩ | ⟨host', -, hrow⟩
  · cases hrow
  · obtain ⟨pick', hpick, heq⟩ := Option.map_eq_some_iff.1 hrow.symm
    obtain ⟨rfl, rfl⟩ := Prod.mk.inj heq
    exact hpick

/-- The selection writes nothing of the jobs in flight. -/
theorem elsewhere_beginClaim {row : Option (Host × Pick)} (hids : (db.jobs.map Job.id).Nodup)
    (h : db.beginClaim num call = .ok (db', row)) : Elsewhere db db' := by
  rcases beginClaim_cases h with ⟨rfl, -⟩ | ⟨host, rfl, -⟩
  · exact Elsewhere.refl hids
  · have hjobs : ((db.passFence host.hostId).1.refreshDemotions num call.now).jobs = db.jobs :=
      passFence_jobs host.hostId
    have hexcl : ((db.passFence host.hostId).1.refreshDemotions num call.now).exclusions =
        db.exclusions := passFence_exclusions host.hostId
    refine ⟨hjobs ▸ hids, fun j hj _ => hjobs ▸ hj, ?_, fun x hx _ => hexcl ▸ hx, ?_⟩
    · rw [hjobs]
      exact (Elsewhere.refl hids).cls
    · exact fun r hr _ => passFence_reservations host.hostId r hr

end Elsewhere

/-! ### The commit -/

section Commit

variable {num : Numerics} {db : Tables} {call : Call} {host : Host} {pick : Pick} {j q : Job}
  {result : ClaimResult}

/-- **What the second look has seen** of a job. -/
structure Revalidated (db : Tables) (j : Job) (host : Host) (pick : Pick) : Prop where
  mem : j ∈ db.jobs
  id : j.id = pick.job.id
  queued : j.state = .queued
  stage : some j.stage = db.openStage j.groupId
  keys : j.conflictScope = .global → ∀ x ∈ db.exclusions, x.key ∉ j.conflictKeys
  fence : ∀ r ∈ db.hostReservations, r.hostId = host.hostId → r.ownerJobId = j.id
  floorRoom : j.cpuMin ≤ pick.floorRoom
  capRoom : ∀ room ∈ pick.capRoom, j.cpuMin ≤ room

theorem of_jobEligible {stage : Option ℤ} {heldKeys : List Key} {now : Time}
    (h : db.jobEligible j host stage heldKeys now = true) :
    j.state = .queued ∧ some j.stage = stage ∧
      (j.conflictScope = .global → ∀ x ∈ db.exclusions, x.key ∉ j.conflictKeys) ∧
      ∀ r ∈ db.hostReservations, r.hostId = host.hostId → r.ownerJobId = j.id := by
  simp only [Tables.jobEligible, Bool.and_eq_true, Bool.not_eq_true', Bool.and_eq_false_iff,
    List.any_eq_false, decide_eq_true_eq, decide_eq_false_iff_not, List.contains_eq_mem] at h
  obtain ⟨⟨⟨⟨⟨⟨⟨⟨hstate, -⟩, hstage⟩, -⟩, -⟩, -⟩, hkeys⟩, -⟩, hfence⟩ := h
  refine ⟨hstate, hstage, fun hscope x hx => ?_, fun r hr hhost => ?_⟩
  · rcases hkeys with hne | hall
    · exact absurd hscope hne
    · simpa using hall x hx
  · simpa [hhost] using hfence r hr

theorem revalidated (hmem : db.job pick.job.id = some j) {heldKeys : List Key} {mem : ℤ}
    {now : Time} (h : db.revalidateClaim j pick.gid host pick.floorRoom pick.capRoom mem heldKeys
      now = true) : Revalidated db j host pick := by
  obtain ⟨g, -, hg⟩ := (Option.any_eq_true _ _).1 h
  simp only [Bool.and_eq_true, decide_eq_true_eq] at hg
  obtain ⟨⟨⟨⟨-, helig⟩, hfloor⟩, hcap⟩, -⟩ := hg
  obtain ⟨hstate, hstage, hkeys, hfence⟩ := of_jobEligible helig
  refine ⟨List.mem_of_find?_eq_some hmem, by simpa using List.find?_some hmem, hstate, hstage,
    hkeys, hfence, hfloor, fun room hroom => ?_⟩
  simpa [Option.mem_def.1 hroom] using hcap

/-- The jobs once a claim is written: the claimed one, and the others as they were. -/
theorem mem_writeClaim {x : Job} (h : x ∈ (db.writeClaim num call host pick j).jobs) :
    x = Tables.claimedJob host.hostId call (Tables.grantOf j pick) j ∨
      x ∈ db.jobs ∧ x.id ≠ j.id := by
  obtain ⟨q, hq, rfl⟩ := List.mem_map.1 h
  split_ifs with hid
  · exact .inl rfl
  · exact .inr ⟨hq, hid⟩

theorem ids_writeClaim :
    (db.writeClaim num call host pick j).jobs.map Job.id = db.jobs.map Job.id := by
  show (db.jobs.map _).map Job.id = _
  rw [List.map_map]
  refine List.map_congr_left fun q _ => ?_
  show (if q.id = j.id then Tables.claimedJob host.hostId call _ j else q).id = q.id
  split_ifs with hid
  · exact hid.symm
  · rfl

theorem exclusions_writeClaim {x : Exclusion} (h : x ∈ db.exclusions) :
    x ∈ (db.writeClaim num call host pick j).exclusions := by
  show x ∈ if j.conflictScope = .global then _ else _
  split_ifs
  · exact List.mem_append_left _ h
  · exact h

theorem excluded_writeClaim (hscope : j.conflictScope = .global) {k : Key}
    (hk : k ∈ j.conflictKeys) :
    ∃ x ∈ (db.writeClaim num call host pick j).exclusions, x.key = k ∧ x.jobId = j.id := by
  refine ⟨{ key := k, jobId := j.id, epoch := j.epoch + 1, host := host.hostId }, ?_, rfl, rfl⟩
  show _ ∈ if j.conflictScope = .global then _ else _
  rw [if_pos hscope]
  exact List.mem_append_right _ (List.mem_map.2 ⟨k, List.mem_dedup.2 hk, rfl⟩)

/-- **A claim that is written keeps the fences**: the host of an exclusive job is empty and reserved
for it. -/
theorem Fenced.writeClaim (h : Fenced db) (hj : Revalidated db j host pick)
    (hexcl : j.exclusive = true → (∀ q ∈ db.jobs, q.inFlight = true → q.host ≠ some host.hostId) ∧
      ∃ r ∈ db.hostReservations, r.hostId = host.hostId) :
    Fenced (db.writeClaim num call host pick j) := by
  have hkeys : ∀ q ∈ db.jobs, q.inFlight = true → q.conflictScope = .global →
      j.conflictScope = .global → ∀ k ∈ q.conflictKeys, k ∉ j.conflictKeys := by
    intro q hq hfl hqscope hjscope k hk
    obtain ⟨x, hx, rfl, -⟩ := h.excluded q hq hfl hqscope k hk
    exact hj.keys hjscope x hx
  have hother : ∀ q ∈ db.jobs, q.id ≠ j.id → q.inFlight = true → q.exclusive = true →
      q.host ≠ some host.hostId := by
    intro q hq hid hfl hqexcl hhost
    obtain ⟨r, hr, hrhost, howner⟩ := h.reserved q hq hfl hqexcl host.hostId hhost
    exact hid (howner.symm.trans (hj.fence r hr hrhost))
  refine ⟨by rw [ids_writeClaim]; exact h.ids, ?_, ?_, ?_, ?_⟩
  · intro x hx hfl hscope k hk
    rcases mem_writeClaim hx with rfl | ⟨hmem, -⟩
    · exact excluded_writeClaim (j := j) hscope hk
    · obtain ⟨y, hy, hkey, hid⟩ := h.excluded x hmem hfl hscope k hk
      exact ⟨y, exclusions_writeClaim hy, hkey, hid⟩
  · intro x hx hfl hxexcl host' hhost
    rcases mem_writeClaim hx with rfl | ⟨hmem, -⟩
    · obtain ⟨-, r, hr, hrhost⟩ := hexcl hxexcl
      obtain rfl : host.hostId = host' := Option.some.inj hhost
      exact ⟨r, hr, hrhost, hj.fence r hr hrhost⟩
    · exact h.reserved x hmem hfl hxexcl host' hhost
  · intro x hx y hy hxfl hyfl hne hxscope hyscope k hk
    rcases mem_writeClaim hx with rfl | ⟨hxmem, hxid⟩ <;>
      rcases mem_writeClaim hy with rfl | ⟨hymem, hyid⟩
    · exact absurd rfl hne
    · exact fun hky => hkeys y hymem hyfl hyscope hxscope k hky hk
    · exact hkeys x hxmem hxfl hxscope hyscope k hk
    · exact h.apart x hxmem y hymem hxfl hyfl hne hxscope hyscope k hk
  · intro x hx y hy hxfl hyfl hxexcl host' hxhost hyhost
    rcases mem_writeClaim hx with rfl | ⟨hxmem, hxid⟩ <;>
      rcases mem_writeClaim hy with rfl | ⟨hymem, hyid⟩
    · rfl
    · obtain rfl : host.hostId = host' := Option.some.inj hxhost
      exact absurd hyhost ((hexcl hxexcl).1 y hymem hyfl)
    · obtain rfl : host.hostId = host' := Option.some.inj hyhost
      exact absurd hxhost (hother x hxmem hxid hxfl hxexcl)
    · exact h.alone x hxmem y hymem hxfl hyfl hxexcl host' hxhost hyhost

/-- The reservation of a host that has none. -/
theorem reservations_activateOrDrain (db : Tables) (host : Host) (j : Job) : ∃ state,
    (db.reservationActivateOrDrain host j).1.hostReservations =
      if (db.hostReservation host.hostId).isSome then db.hostReservations
      else db.hostReservations ++ [{ hostId := host.hostId, ownerJobId := j.id, state }] :=
  ⟨_, rfl⟩

theorem mem_activateOrDrain {r : HostReservation} (hr : r ∈ db.hostReservations) :
    r ∈ (db.reservationActivateOrDrain host j).1.hostReservations := by
  obtain ⟨state, h⟩ := reservations_activateOrDrain db host j
  rw [h]
  split_ifs
  · exact hr
  · exact List.mem_append_left _ hr

theorem owner_activateOrDrain {r : HostReservation}
    (hr : r ∈ (db.reservationActivateOrDrain host j).1.hostReservations) :
    r ∈ db.hostReservations ∨ r.ownerJobId = j.id := by
  obtain ⟨state, h⟩ := reservations_activateOrDrain db host j
  rw [h] at hr
  split_ifs at hr
  · exact .inl hr
  · rcases List.mem_append.1 hr with hr | hr
    · exact .inl hr
    · exact .inr (List.mem_singleton.1 hr ▸ rfl)

theorem exists_activateOrDrain :
    ∃ r ∈ (db.reservationActivateOrDrain host j).1.hostReservations, r.hostId = host.hostId := by
  obtain ⟨state, h⟩ := reservations_activateOrDrain db host j
  rw [h]
  split_ifs with hsome
  · obtain ⟨r, hr⟩ := Option.isSome_iff_exists.1 hsome
    exact ⟨r, List.mem_of_find?_eq_some hr, by simpa using List.find?_some hr⟩
  · exact ⟨_, List.mem_append_right _ (List.mem_singleton_self _), rfl⟩

/-- The fence of an exclusive job changes nothing but the reservations. -/
theorem fenced_activateOrDrain (h : Fenced db) :
    Fenced (db.reservationActivateOrDrain host j).1 where
  ids := h.ids
  excluded := h.excluded
  reserved q hq hfl hexcl h' hhost := by
    obtain ⟨r, hr, hrhost, hid⟩ := h.reserved q hq hfl hexcl h' hhost
    exact ⟨r, mem_activateOrDrain hr, hrhost, hid⟩
  apart := h.apart
  alone := h.alone

theorem Revalidated.activateOrDrain (h : Revalidated db j host pick) :
    Revalidated (db.reservationActivateOrDrain host j).1 j host pick where
  mem := h.mem
  id := h.id
  queued := h.queued
  stage := h.stage
  keys := h.keys
  fence r hr hhost := by
    rcases owner_activateOrDrain hr with hr | howner
    · exact h.fence r hr hhost
    · exact howner
  floorRoom := h.floorRoom
  capRoom := h.capRoom

/-- Where the fence lets an exclusive job through, the host is empty. -/
theorem empty_of_activateOrDrain (h : (db.reservationActivateOrDrain host j).2 = true) :
    ∀ q ∈ db.jobs, q.inFlight = true → q.host ≠ some host.hostId := by
  have hidle : db.hostLeases host.hostId = 0 := by
    simpa [Tables.reservationActivateOrDrain] using h
  intro q hq hfl hhost
  have hnil := List.eq_nil_of_length_eq_zero hidle
  have : q ∈ db.jobs.filter fun j => j.host = some host.hostId && j.inFlight :=
    List.mem_filter.2 ⟨hq, by simp [hhost, hfl]⟩
  simp [hnil] at this

/-- **How a claim ends**: without a grant, the tables as they were or with a fence; or with a job
that was looked at again, on a host that is empty and reserved if the job is exclusive. -/
theorem of_finishClaim {out : Tables × Option ClaimResult}
    (h : db.finishClaim num call host pick = out) :
    out = (db, none) ∨ (∃ j, out = ((db.reservationActivateOrDrain host j).1, none)) ∨
      ∃ j, ∃ fenced : Tables, Revalidated db j host pick ∧
        out = (fenced.writeClaim num call host pick j,
          some
            { job := Tables.claimedJob host.hostId call (Tables.grantOf j pick) j
              grantCpu := Tables.grantOf j pick }) ∧
        ((j.exclusive = false ∧ fenced = db) ∨
          (j.exclusive = true ∧ fenced = (db.reservationActivateOrDrain host j).1 ∧
            (db.reservationActivateOrDrain host j).2 = true)) := by
  subst h
  unfold Tables.finishClaim
  split
  · exact .inl rfl
  · rename_i j hjob
    cases hre : db.revalidateClaim j pick.gid host pick.floorRoom pick.capRoom call.mem
        call.heldKeys call.now with
    | false => exact .inl rfl
    | true =>
      have hj := revalidated hjob hre
      cases hexcl : j.exclusive with
      | false => exact .inr (.inr ⟨j, db, hj, rfl, .inl ⟨hexcl, rfl⟩⟩)
      | true =>
        cases hidle : (db.reservationActivateOrDrain host j).2 with
        | false => exact .inr (.inl ⟨j, by simp [hidle]⟩)
        | true => exact .inr (.inr ⟨j, _, hj, by simp [hidle], .inr ⟨hexcl, rfl, hidle⟩⟩)

theorem Fenced.finishClaim (h : Fenced db) : Fenced (db.finishClaim num call host pick).1 := by
  rcases of_finishClaim (Eq.refl (db.finishClaim num call host pick)) with
    hout | ⟨j, hout⟩ | ⟨j, fenced, hj, hout, ⟨hexcl, rfl⟩ | ⟨hexcl, rfl, hidle⟩⟩
  · rw [hout]
    exact h
  · rw [hout]
    exact fenced_activateOrDrain h
  · rw [hout]
    exact h.writeClaim hj fun hx => absurd hx (by simp [hexcl])
  · rw [hout]
    exact (fenced_activateOrDrain h).writeClaim hj.activateOrDrain fun _ =>
      ⟨fun q hq => empty_of_activateOrDrain hidle q hq, exists_activateOrDrain⟩

end Commit

/-! ### What is granted -/

/-- The unmet floors of the other work classes that have waiting work of equal or higher rank. -/
def Scan.otherFloors (s : Scan) (cls : ClassId) (band : ℤ) : ℚ :=
  double.sum ((s.db.hostClassPolicy.filter fun c =>
    c.hostId = s.host.hostId && Tables.claimable s.call.closed c && c.cls ≠ cls &&
      (s.waitingRank c.cls).any fun r => decide (band ≤ r)).map
        (Tables.unmetFloor s.host.budget s.call.used))

/-- What single precision can take from the floors: the reserved sum is rounded, and so is what is
left of the free cores. -/
def roundingOf (free : ℚ) : ℚ := free / 2 ^ 22 + 1 / 2 ^ 148

/-- **What is promised of a grant**: of the selection `s`, committed in the tables `db`. -/
structure Granted (s : Scan) (pick : Pick) (db : Tables) (result : ClaimResult) : Prop where
  min_le : result.job.cpuMin ≤ result.grantCpu
  le_req : result.grantCpu ≤ result.job.cpuReq
  le_free : result.grantCpu ≤ s.call.free
  le_cap : ∀ room ∈ s.capRoom result.job.cls, result.grantCpu ≤ room
  /-- An ordinary grant leaves the floors of the others free, but for the rounding. -/
  floors : pick.overdue = false →
    s.otherFloors result.job.cls pick.band ≤
      s.call.free - result.grantCpu + roundingOf s.call.free
  /-- No job of the group is unfinished at an earlier stage. -/
  stage : ∀ j ∈ db.jobs, j.groupId = result.job.groupId → j.unfinished = true →
    result.job.stage ≤ j.stage

section Grants

variable {num : Numerics} {db : Tables} {call : Call} {host : Host} {s : Scan} {pick : Pick}
  {j : Job} {result : ClaimResult}

theorem leastOf_le (x : ℚ) (bound : Option ℚ) : leastOf x bound ≤ x := by
  cases bound with
  | none => exact le_rfl
  | some b => exact min_le_left x b

theorem leastOf_le_bound {x b : ℚ} {bound : Option ℚ} (h : b ∈ bound) : leastOf x bound ≤ b := by
  cases h
  exact min_le_right x b

theorem le_leastOf {a x : ℚ} {bound : Option ℚ} (hx : a ≤ x) (hb : ∀ b ∈ bound, a ≤ b) :
    a ≤ leastOf x bound := by
  cases bound with
  | none => exact hx
  | some b => exact le_min hx (hb b rfl)

/-- The floors of the others are a part of what is reserved, before that is rounded. -/
theorem otherFloors_le (cls : ClassId) (band : ℤ) : ∃ reserved,
    s.otherFloors cls band ≤ reserved ∧ 0 ≤ reserved ∧
      s.db.reservedFloor s.host.hostId s.host.budget s.call.used s.waitingRank cls band
        s.call.closed = single.round reserved := by
  have hall : ∀ cs : List HostClassPolicy,
      ∀ q ∈ cs.map (Tables.unmetFloor s.host.budget s.call.used), 0 ≤ q := by
    intro cs q hq
    obtain ⟨c, -, rfl⟩ := List.mem_map.1 hq
    exact le_max_left _ _
  refine ⟨_, Format.sum_le_of_sublist (by decide) (List.Sublist.map _ ?_) (hall _),
    Format.sum_nonneg (hall _), rfl⟩
  refine List.monotone_filter_right _ fun c hc => ?_
  simp only [Bool.and_eq_true, decide_eq_true_eq] at hc ⊢
  obtain ⟨⟨hclaimable, hne⟩, hrank⟩ := hc
  refine ⟨hclaimable, ?_⟩
  obtain ⟨r, hr, hle⟩ := (Option.any_eq_true _ _).1 hrank
  refine (Option.any_eq_true _ _).2 ⟨r, hr, ?_⟩
  simpa [hne] using hle

/-- **What the two roundings can take**, where some of the free cores are left. -/
theorem room_le_of_rounded {free reserved : ℚ} (hreserved : 0 ≤ reserved)
    (hpos : 0 < single.round (free - single.round reserved)) :
    reserved + single.round (free - single.round reserved) ≤ free + roundingOf free := by
  have hleft : 0 < free - single.round reserved := by
    by_contra hnot
    have := Format.round_nonneg (f := single) (q := -(free - single.round reserved))
      (by linarith)
    rw [Format.round_neg] at this
    linarith
  have hnonneg := Format.round_nonneg (f := single) hreserved
  have hfirst := (abs_le.1 (Format.abs_round_sub_le (f := single) reserved)).1
  have hsecond := (abs_le.1 (Format.abs_round_sub_le (f := single)
    (free - single.round reserved))).2
  rw [abs_of_nonneg hreserved] at hfirst
  rw [abs_of_pos hleft] at hsecond
  have hbits : (2 : ℚ) ^ (-single.bits : ℤ) = 1 / 2 ^ 24 := by decide +kernel
  have hleast : (2 : ℚ) ^ (single.least - 1) = 1 / 2 ^ 150 := by decide +kernel
  rw [hbits, hleast] at hfirst hsecond
  unfold roundingOf
  linarith

/-- **The floor room of a pick**: never above the free cores, and behind the floors of the others
when it is an ordinary one. -/
theorem floorRoom_le (h : s.pick = some pick) :
    pick.floorRoom ≤ s.call.free ∧ (pick.overdue = false → 0 < pick.floorRoom →
      s.otherFloors pick.cls pick.band + pick.floorRoom ≤
        s.call.free + roundingOf s.call.free) := by
  obtain ⟨d, -, -, hgroup, hrow, hoverdue, hroom, -⟩ := Scan.exists_fitting_of_pickBy h
  have hcls : pick.cls = d.pol.cls := congrArg (fun c : CandRow => c.cls) hrow
  have hband : pick.band = d.group.band := congrArg (fun g : GroupRow => g.band) hgroup.symm
  obtain ⟨reserved, hle, hreserved, hrounded⟩ :=
    otherFloors_le (s := s) d.pol.cls d.group.band
  rw [hroom, hoverdue, hcls, hband, Scan.ownFloorRoom, hrounded]
  refine ⟨?_, fun hfalse => ?_⟩
  · split_ifs
    · exact le_rfl
    · have hnonneg := Format.round_nonneg (f := single) hreserved
      conv_rhs => rw [← s.call.free_real]
      exact Format.round_mono (by decide) (by linarith)
  · rw [if_neg (by simp [hfalse])]
    intro hpos
    have := room_le_of_rounded hreserved hpos
    linarith

theorem capRoom_of_pick (h : s.pick = some pick) : pick.capRoom = s.capRoom pick.cls := by
  obtain ⟨d, -, -, -, hrow, -, -, -⟩ := Scan.exists_fitting_of_pickBy h
  have hcap : pick.capRoom = s.capRoom d.pol.cls := congrArg CandRow.capRoom hrow
  have hcls : pick.cls = d.pol.cls := congrArg (fun c : CandRow => c.cls) hrow
  rw [hcap, hcls]

theorem cls_of_pick (h : s.pick = some pick) : pick.job ∈ s.db.jobs ∧ pick.job.cls = pick.cls := by
  obtain ⟨d, hd, hjob, -, hrow, -, -, -⟩ := Scan.exists_fitting_of_pickBy h
  obtain ⟨-, -, hmem, hfits⟩ := Scan.mem_fitting.1 hd
  have hcls : pick.cls = d.pol.cls := congrArg (fun c : CandRow => c.cls) hrow
  simp only [Scan.fits, Scan.eligible, Bool.and_eq_true, decide_eq_true_eq] at hfits
  exact ⟨hjob ▸ hmem, by rw [← hjob, hcls]; exact hfits.1.1.1.1.2⟩

/-- **No unfinished job of a group is at an earlier stage than the open one.** -/
theorem openStage_le {g : GroupId} {m : ℤ} (h : some m = db.openStage g) (hj : j ∈ db.jobs)
    (hgroup : j.groupId = g) (hunfinished : j.unfinished = true) : m ≤ j.stage := by
  have hmin : ∀ p : Job → Bool, p j = true →
      ∀ k, ((db.jobs.filter fun q => q.groupId = g && p q).map Job.stage).min? = some k →
        k ≤ j.stage := by
    intro p hp k hk
    refine (List.min?_eq_some_iff.1 hk).2 j.stage (List.mem_map_of_mem (List.mem_filter.2 ⟨hj, ?_⟩))
    simp [hgroup, hp]
  have hsome : ∀ p : Job → Bool, p j = true →
      ((db.jobs.filter fun q => q.groupId = g && p q).map Job.stage).min? ≠ none := by
    intro p hp hnone
    have := List.map_eq_nil_iff.1 (List.min?_eq_none_iff.1 hnone)
    exact List.ne_nil_of_mem (List.mem_filter.2 ⟨hj, by simp [hgroup, hp]⟩) this
  rw [Tables.openStage] at h
  rcases Bool.or_eq_true _ _ ▸ hunfinished with hqueued | hbegun
  · have hle := hmin (fun q => q.state = .queued) hqueued
    have hne := hsome (fun q => q.state = .queued) hqueued
    generalize ((db.jobs.filter fun q => q.groupId = g && q.state = .queued).map Job.stage).min? = a
      at h hle hne
    generalize ((db.jobs.filter fun f => f.groupId = g && f.begun).map Job.stage).min? = b at h
    cases a with
    | none => exact absurd rfl hne
    | some a =>
      have := hle a rfl
      cases b <;> simp only [leastSome, Option.some.injEq] at h <;> omega
  · have hle := hmin Job.begun hbegun
    have hne := hsome Job.begun hbegun
    generalize ((db.jobs.filter fun q => q.groupId = g && q.state = .queued).map Job.stage).min? = a
      at h
    generalize ((db.jobs.filter fun f => f.groupId = g && f.begun).map Job.stage).min? = b
      at h hle hne
    cases b with
    | none => exact absurd rfl hne
    | some b =>
      have := hle b rfl
      cases a <;> simp only [leastSome, Option.some.injEq] at h <;> omega

/-- **A grant keeps what is promised**, whatever was committed in between. -/
theorem granted (hpick : s.pick = some pick) (he : Elsewhere s.db db)
    (h : (db.finishClaim num s.call s.host pick).2 = some result) : Granted s pick db result := by
  rcases of_finishClaim (Eq.refl (db.finishClaim num s.call s.host pick)) with
    hout | ⟨j, hout⟩ | ⟨j, fenced, hj, hout, -⟩
  · simp [hout] at h
  · simp [hout] at h
  · obtain rfl : _ = result := Option.some.inj (hout ▸ h)
    obtain ⟨hmem, hcls⟩ := cls_of_pick hpick
    have hjcls : j.cls = pick.cls := (he.cls pick.job hmem j hj.mem hj.id).trans hcls
    obtain ⟨hfree, hfloors⟩ := floorRoom_le hpick
    have hleast : Tables.grantOf j pick ≤ min j.cpuReq pick.floorRoom := leastOf_le _ _
    refine ⟨?_, hleast.trans (min_le_left _ _), (hleast.trans (min_le_right _ _)).trans hfree, ?_,
      ?_, ?_⟩
    · exact le_leastOf (le_min j.cpuValid.2 hj.floorRoom) hj.capRoom
    · intro room hroom
      refine leastOf_le_bound ?_
      rw [capRoom_of_pick hpick, ← hjcls]
      exact hroom
    · intro hordinary
      have hpos : 0 < pick.floorRoom := j.cpuValid.1.trans_le hj.floorRoom
      have := hfloors hordinary hpos
      have hroom := hleast.trans (min_le_right _ _)
      show s.otherFloors j.cls pick.band ≤
        s.call.free - Tables.grantOf j pick + roundingOf s.call.free
      rw [hjcls]
      linarith
    · exact fun q hq hgroup hunfinished => openStage_le hj.stage hq hgroup hunfinished

end Grants

/-! ### Runs -/

/-- **The fences hold in every state that claims reach.** -/
theorem fenced_reach {num : Numerics} {db : Tables} {ok : Tables → Act → Prop}
    (h : (claims num).Reach ok db) : Fenced db := by
  refine h.invariant (P := Fenced) (fun db hstart => ?_) (fun db a db' hfenced _ hnext => ?_)
  · have hnone : ∀ j ∈ db.jobs, j.inFlight ≠ true := fun j hj => by simp [hstart.2 j hj]
    exact ⟨hstart.1, fun j hj hfl => absurd hfl (hnone j hj),
      fun j hj hfl => absurd hfl (hnone j hj), fun j hj _ _ hfl => absurd hfl (hnone j hj),
      fun j hj _ _ hfl => absurd hfl (hnone j hj)⟩
  · cases a with
    | other after =>
      simp only [claims, Option.ite_none_right_eq_some] at hnext
      exact Option.some.inj hnext.2 ▸ hfenced.elsewhere hnext.1
    | claim call between =>
      simp only [claims] at hnext
      split at hnext
      · exact Option.some.inj hnext ▸ hfenced
      · rename_i hbegin
        exact Option.some.inj hnext ▸ hfenced.elsewhere (elsewhere_beginClaim hfenced.ids hbegin)
      · rename_i hbegin
        rw [Option.ite_none_right_eq_some] at hnext
        have hfenced₁ := hfenced.elsewhere (elsewhere_beginClaim hfenced.ids hbegin)
        exact Option.some.inj hnext.2 ▸ (hfenced₁.elsewhere hnext.1).finishClaim

/-- **Claims by any hosts in any order are safe.**  In every state they reach, global jobs in flight
have no conflict key in common and an exclusive job is alone on its host; and every grant from
there keeps what is promised of it. -/
theorem claims_safe (num : Numerics) (db : Tables) (h : (claims num).Reach (fun _ _ => True) db) :
    (∀ j ∈ db.jobs, ∀ q ∈ db.jobs, j.inFlight = true → q.inFlight = true → j.id ≠ q.id →
      j.conflictScope = .global → q.conflictScope = .global →
        ∀ k ∈ j.conflictKeys, k ∉ q.conflictKeys) ∧
    (∀ j ∈ db.jobs, ∀ q ∈ db.jobs, j.inFlight = true → q.inFlight = true → j.exclusive = true →
      ∀ h, j.host = some h → q.host = some h → q.id = j.id) ∧
    ∀ call db₁ host pick between result,
      db.beginClaim num call = .ok (db₁, some (host, pick)) → Elsewhere db₁ between →
        (between.finishClaim num call host pick).2 = some result →
          Granted { num, db := db₁, host, call } pick between result := by
  have hfenced := fenced_reach h
  refine ⟨hfenced.apart, hfenced.alone, ?_⟩
  intro call db₁ host pick between result hbegin hbetween hresult
  exact granted (pick_of_beginClaim hbegin) hbetween hresult

/-- A job of global scope is claimed from the first state, and the host is asked again. -/
theorem claims_safe_twoClaims :
    ∃ db, (claims (Scan.twoClasses 0).num).Reach (fun _ _ => True) db ∧
      (db.jobs.map Job.inFlight = [true, true] ∧ db.classVtime.map ClassVtime.vtime = [1, 1]) ∧
      ∀ j ∈ db.jobs, ∀ q ∈ db.jobs, j.inFlight = true → q.inFlight = true → j.exclusive = true →
        ∀ h, j.host = some h → q.host = some h → q.id = j.id := by
  have hrun := Machine.exists_reach_of_exec (claims (Scan.twoClasses 0).num) (Scan.twoClasses 0).db
    [.claim (Scan.twoClasses 0).call id, .claim (Scan.twoClasses 0).call id]
    (fun db => decide (db.jobs.map Job.inFlight = [true, true] ∧
      db.classVtime.map ClassVtime.vtime = [1, 1]))
    ⟨by decide, by decide⟩ (Machine.along_of_forall (fun _ _ => trivial) _ _) (by decide +kernel)
  obtain ⟨db, hreach, hdb⟩ := hrun
  exact ⟨db, hreach, of_decide_eq_true hdb, (claims_safe _ db hreach).2.1⟩

/-- Two classes, and a floor of a fifth of the host for the second. -/
def fifthReserved : Scan :=
  { Scan.twoClasses 0 with
    db :=
      { (Scan.twoClasses 0).db with
        hostClassPolicy :=
          [{ hostId := 1, cls := 1 }, { hostId := 1, cls := 2, floorCpuPct := some 20 }]
        jobs :=
          [{ id := 1, groupId := 1, cls := 1, estP50S := 900, cpuReq := 8, cpuMin := 1 },
            { id := 2, groupId := 2, cls := 2, cpuReq := 8, cpuMin := 1 }] } }

/-- **The rounding is taken from the floor**: of 8 cores 6.4 and a bit are granted. -/
theorem grant_takes_of_floor :
    ¬ ∀ (s : Scan) (pick : Pick) (db : Tables) (result : ClaimResult), s.pick = some pick →
      Elsewhere s.db db → (db.finishClaim s.num s.call s.host pick).2 = some result →
        pick.overdue = false →
          s.otherFloors result.job.cls pick.band ≤ s.call.free - result.grantCpu := by
  intro hall
  have hgrant : (fifthReserved.pick.bind fun pick =>
      ((fifthReserved.db.finishClaim fifthReserved.num fifthReserved.call fifthReserved.host
        pick).2).map fun result => decide (pick.overdue = false ∧
          fifthReserved.call.free - result.grantCpu <
            fifthReserved.otherFloors result.job.cls pick.band)) = some true := by
    decide +kernel
  obtain ⟨pick, hpick, hmap⟩ := Option.bind_eq_some_iff.1 hgrant
  obtain ⟨result, hresult, htrue⟩ := Option.map_eq_some_iff.1 hmap
  obtain ⟨hordinary, hlt⟩ := of_decide_eq_true htrue
  exact absurd (hall _ pick _ result hpick (.refl (by decide)) hresult hordinary)
    (not_le_of_gt hlt)

end LaneDb
end LaneBroker
