/-
# Speed factors

`estimates.js`: how long a job takes is kept in seconds of one host, the anchor, and a table
has how much slower every other host is, in each class of work and each bucket of lengths.
Where the anchor has not been calibrated for long, `rebaseAnchor` takes the median host for
it, divides the table by that host's factors, and an estimate is multiplied by the one of its
class and bucket (`rescaleEstimator`).

Within one class and bucket this leaves what is predicted for a host
(`keeps_of_same_bucket`).  But the estimate that is multiplied may fall into another bucket,
where the host is not slower by as much, and a host that the table does not have is not
divided: what is predicted stays just where neither tells (`Keeps`, `predicted_rebase_iff`).
-/

import LaneBroker.Basis.JsText
import LaneBroker.Basis.OrderedMap
import Mathlib.Analysis.SpecialFunctions.Log.Basic

namespace LaneBroker
namespace Scheduler
namespace SpeedFactors

open LaneBroker.Basis

noncomputable section

/-! ### Estimates -/

/-- **An estimator**: `mu` is the logarithm of seconds of the anchor. -/
structure Estimator where
  n : ℕ
  mu : ℝ
  variance : ℝ
  censored : ℕ

/-- `p50Of`. -/
def p50Of (state : Estimator) : ℝ := Real.exp state.mu

theorem p50Of_pos (state : Estimator) : 0 < p50Of state := Real.exp_pos _

/-- `BUCKETS`. -/
inductive Bucket
  | short
  | medium
  | long
  deriving DecidableEq

/-- The name of a bucket. -/
def Bucket.text : Bucket → JsString
  | .short => js "short"
  | .medium => js "medium"
  | .long => js "long"

/-- `bucketOf`. -/
def bucketOf (refS : ℝ) : Bucket :=
  if refS < 120 then .short
  else if refS ≤ 600 then .medium
  else .long

/-! ### The table -/

/-- **A cell**: a time multiplier, and how many jobs it comes from. -/
structure Cell where
  factor : ℝ
  n : ℕ

/-- The cells of a host, by class of work and bucket. -/
abbrev HostFactors := OrderedMap JsString (OrderedMap Bucket Cell)

/-- **A table of speed factors**, by host. -/
abbrev Factors := OrderedMap JsString HostFactors

/-- A cell of a host. -/
def cellIn (cells : HostFactors) (workClass : JsString) (bucket : Bucket) : Option Cell :=
  (cells.get workClass).bind fun byBucket => byBucket.get bucket

/-- The cells of a host, as they are where it has none. -/
def cellsAt (factors : Factors) (host : JsString) : HostFactors := (factors.get host).getD .empty

/-- A cell of the table. -/
def cellOf (factors : Factors) (host workClass : JsString) (bucket : Bucket) : Option Cell :=
  cellIn (cellsAt factors host) workClass bucket

/-- One cell set in those of a host. -/
def putCell (cells : HostFactors) (workClass : JsString) (bucket : Bucket) (cell : Cell) :
    HostFactors :=
  cells.set workClass (((cells.get workClass).getD .empty).set bucket cell)

/-- `setCell`. -/
def setCell (factors : Factors) (host workClass : JsString) (bucket : Bucket) (cell : Cell) :
    Factors :=
  factors.set host (putCell (cellsAt factors host) workClass bucket cell)

/-- `ANCHOR_HOST`. -/
def anchorHost : JsString := js "mac-grandy"

/-- `seedFactor`. -/
def seedFactor (factors : Factors) (host workClass : JsString) (bucket : Bucket) (factor : ℝ)
    (anchor : JsString) : Factors :=
  if host = anchor ∨ ¬0 < factor then factors
  else setCell factors host workClass bucket { factor, n := 0 }

/-- The factor that is stored, 1 where there is none. -/
def stored (factors : Factors) (host workClass : JsString) (bucket : Bucket) : ℝ :=
  ((cellOf factors host workClass bucket).map Cell.factor).getD 1

/-- **`factorFor`.** -/
def factorFor (factors : Factors) (host workClass : JsString) (bucket : Bucket)
    (anchor : JsString) : ℝ :=
  if host = anchor then 1 else stored factors host workClass bucket

/-- `clamp`. -/
def clamp (v lo hi : ℝ) : ℝ := min hi (max lo v)

/-- `ALPHA`. -/
def alpha : ℝ := 1 / 10

/-- `RATIO_MIN`. -/
def ratioMin : ℝ := 1 / 5

/-- `RATIO_MAX`. -/
def ratioMax : ℝ := 5

/-- **`observeFactor`.** -/
def observeFactor (factors : Factors) (host workClass : JsString) (estP50RefS wallS : ℝ)
    (censored : Bool) (anchor : JsString) : Factors :=
  if host = anchor ∨ ¬0 < estP50RefS ∨ ¬0 < wallS then factors
  else
    let bucket := bucketOf estP50RefS
    let observed := wallS / estP50RefS
    match cellOf factors host workClass bucket with
    | none =>
      setCell factors host workClass bucket
        { factor := if censored then max 1 observed else observed, n := 1 }
    | some cell =>
      let bounded := clamp observed (cell.factor * ratioMin) (cell.factor * ratioMax)
      let next :=
        if censored then max cell.factor observed
        else cell.factor + alpha * (bounded - cell.factor)
      setCell factors host workClass bucket { factor := next, n := cell.n + 1 }

/-! ### The anchor moves -/

/-- `hostCells`. -/
def hostCells (cells : HostFactors) : List ℝ :=
  cells.entries.flatMap fun e => e.2.entries.map fun c => c.2.factor

/-- `cellsOf`. -/
def cellsOf (cells : HostFactors) : List (JsString × Bucket) :=
  cells.entries.flatMap fun e => e.2.entries.map fun c => (e.1, c.1)

/-- `geoMean`. -/
def geoMean (xs : List ℝ) : ℝ := Real.exp ((xs.map Real.log).sum / xs.length)

/-- `ANCHOR_STALE_MS`. -/
def anchorStaleMs : ℝ := 30 * 24 * 3600 * 1000

/-- When each host was calibrated last, in milliseconds. -/
abbrev CalibratedAt := JsString → Option ℝ

/-- `fresh`. -/
def fresh (calibratedAt : CalibratedAt) (now : ℝ) (h : JsString) : Bool :=
  (calibratedAt h).any fun at_ => now - at_ ≤ anchorStaleMs

/-- A host that may become the anchor. -/
structure Candidate where
  host : JsString
  rank : ℝ

/-- The order of the candidates. -/
def Candidate.le (a b : Candidate) : Bool := a.rank < b.rank ∨ a.rank = b.rank ∧ a.host ≤ b.host

/-- `candidates`. -/
def candidates (factors : Factors) (calibratedAt : CalibratedAt) (anchor : JsString) (now : ℝ) :
    List Candidate :=
  (((factors.entries.map Prod.fst).filter fun h =>
    h ≠ anchor ∧ fresh calibratedAt now h ∧ hostCells (cellsAt factors h) ≠ []).map fun h =>
      { host := h, rank := geoMean (hostCells (cellsAt factors h)) }).mergeSort Candidate.le

/-- The host that the anchor moves to, if it moves. -/
def newAnchor (factors : Factors) (calibratedAt : CalibratedAt) (anchor : JsString) (now : ℝ) :
    Option JsString :=
  if fresh calibratedAt now anchor then none
  else
    let candidates := candidates factors calibratedAt anchor now
    candidates[(candidates.length - 1) / 2]?.map Candidate.host

/-- What the estimates of each class and bucket are multiplied by. -/
abbrev RefScales := OrderedMap JsString (OrderedMap Bucket ℝ)

/-- `refScales`. -/
def refScalesOf (own : HostFactors) : RefScales :=
  own.mapValues fun byBucket => byBucket.mapValues Cell.factor

/-- The scale of a class and bucket. -/
def scaleAt (refScales : RefScales) (workClass : JsString) (bucket : Bucket) : Option ℝ :=
  (refScales.get workClass).bind fun byBucket => byBucket.get bucket

/-- One cell of a host, divided. -/
def dividedCell (own cells : HostFactors) (k : JsString × Bucket) : Cell :=
  let cur := cellIn cells k.1 k.2
  { factor := (cur.map Cell.factor).getD 1 / (scaleAt (refScalesOf own) k.1 k.2).getD 1
    n := (cur.map Cell.n).getD 0 }

/-- The cells of a host, divided by those of the new anchor. -/
def divided (own cells : HostFactors) : HostFactors :=
  (cellsOf own).foldl (fun next k => putCell next k.1 k.2 (dividedCell own cells k)) cells

/-- The hosts of the table and the anchor, but for the new one. -/
def hostsBut (factors : Factors) (anchor new : JsString) : List JsString :=
  let keys := factors.entries.map Prod.fst
  (if anchor ∈ keys then keys else keys ++ [anchor]).filter (· ≠ new)

/-- `rebased`. -/
def rebased (factors : Factors) (anchor new : JsString) : Factors :=
  (hostsBut factors anchor new).foldl (fun rebased host =>
    rebased.set host (divided (cellsAt factors new) (cellsAt factors host))) .empty

/-- `unanchored`: the classes and buckets that a host has and the new anchor has not. -/
def unanchoredOf (factors : Factors) (anchor new : JsString) : List (List JsString) :=
  let lacking := (hostsBut factors anchor new).flatMap fun h =>
    (cellsOf (cellsAt factors h)).filter fun k => cellOf factors new k.1 k.2 = none
  let texts := lacking.map fun k => k.1 ++ JsString.slash :: k.2.text
  (texts.dedup.mergeSort (· ≤ ·)).map JsString.segments

/-- **What `rebaseAnchor` returns.** -/
structure Rebase where
  anchor : JsString
  factors : Factors
  refScales : RefScales := .empty
  unanchored : List (List JsString) := []
  moved : Bool := false

/-- **`rebaseAnchor`.** -/
def rebaseAnchor (factors : Factors) (calibratedAt : CalibratedAt) (anchor : JsString) (now : ℝ) :
    Rebase :=
  match newAnchor factors calibratedAt anchor now with
  | none => { anchor, factors }
  | some new =>
    { anchor := new
      factors := rebased factors anchor new
      refScales := refScalesOf (cellsAt factors new)
      unanchored := unanchoredOf factors anchor new
      moved := true }

/-- **`rescaleEstimator`.** -/
def rescaleEstimator (state : Estimator) (workClass : JsString) (refScales : RefScales) :
    Estimator :=
  if state.n = 0 then state
  else
    let scale := (scaleAt refScales workClass (bucketOf (p50Of state))).getD 1
    { state with mu := state.mu + Real.log scale }

/-- **A table that is built** by seeding, observing and moving the anchor, from the empty one. -/
inductive Built : Factors → Prop
  | empty : Built .empty
  | seed {factors : Factors} (host workClass : JsString) (bucket : Bucket) (factor : ℝ)
      (anchor : JsString) : Built factors →
      Built (seedFactor factors host workClass bucket factor anchor)
  | observe {factors : Factors} (host workClass : JsString) (estP50RefS wallS : ℝ)
      (censored : Bool) (anchor : JsString) : Built factors →
      Built (observeFactor factors host workClass estP50RefS wallS censored anchor)
  | rebase {factors : Factors} (calibratedAt : CalibratedAt) (anchor : JsString) (now : ℝ) :
      Built factors → Built (rebaseAnchor factors calibratedAt anchor now).factors

/-- **The wall time that is predicted** for a host. -/
def predicted (factors : Factors) (anchor host workClass : JsString) (state : Estimator) : ℝ :=
  p50Of state * factorFor factors host workClass (bucketOf (p50Of state)) anchor

/-! ### What the operations do to a cell -/

theorem cellIn_putCell (cells : HostFactors) (k : JsString × Bucket) (cell : Cell)
    (k' : JsString × Bucket) : cellIn (putCell cells k.1 k.2 cell) k'.1 k'.2 =
      if k' = k then some cell else cellIn cells k'.1 k'.2 := by
  obtain ⟨workClass, bucket⟩ := k
  obtain ⟨workClass', bucket'⟩ := k'
  rw [cellIn, putCell, OrderedMap.get_set]
  by_cases hclass : workClass' = workClass
  · subst hclass
    rw [if_pos rfl, Option.bind_some, OrderedMap.get_set]
    by_cases hbucket : bucket' = bucket
    · rw [if_pos hbucket, if_pos (by rw [hbucket])]
    · rw [if_neg hbucket, if_neg (by simp [hbucket]), cellIn]
      cases cells.get workClass' with
      | none => rfl
      | some byBucket => rfl
  · rw [if_neg hclass, if_neg (by simp [hclass]), cellIn]

theorem cellsAt_set (factors : Factors) (host : JsString) (cells : HostFactors) (x : JsString) :
    cellsAt (factors.set host cells) x = if x = host then cells else cellsAt factors x := by
  rw [cellsAt, OrderedMap.get_set]
  split_ifs
  · rfl
  · rfl

theorem mem_cellsOf_iff {cells : HostFactors} {k : JsString × Bucket} :
    k ∈ cellsOf cells ↔ (cellIn cells k.1 k.2).isSome := by
  obtain ⟨workClass, bucket⟩ := k
  simp only [cellsOf, cellIn, List.mem_flatMap, List.mem_map, Option.isSome_iff_exists,
    Option.bind_eq_some_iff, OrderedMap.get_eq_some_iff]
  constructor
  · rintro ⟨e, he, c, hc, heq⟩
    obtain ⟨rfl, rfl⟩ := Prod.mk.inj heq
    exact ⟨c.2, e.2, he, hc⟩
  · rintro ⟨cell, byBucket, he, hc⟩
    exact ⟨(workClass, byBucket), he, (bucket, cell), hc, rfl⟩

theorem scaleAt_refScalesOf (own : HostFactors) (workClass : JsString) (bucket : Bucket) :
    scaleAt (refScalesOf own) workClass bucket = (cellIn own workClass bucket).map Cell.factor := by
  rw [scaleAt, refScalesOf, OrderedMap.get_mapValues, cellIn]
  cases own.get workClass with
  | none => rfl
  | some byBucket => exact OrderedMap.get_mapValues _ _ _

theorem cellIn_divided (own cells : HostFactors) (k : JsString × Bucket) :
    cellIn (divided own cells) k.1 k.2 =
      if (cellIn own k.1 k.2).isSome then some (dividedCell own cells k)
      else cellIn cells k.1 k.2 := by
  have hfold := @OrderedMap.read_foldl_write (JsString × Bucket) Cell _ HostFactors
    (fun cells k => cellIn cells k.1 k.2) (fun cells k cell => putCell cells k.1 k.2 cell)
    (fun cells k cell k' => cellIn_putCell cells k cell k') (dividedCell own cells) (cellsOf own)
    cells k
  rw [divided]
  simpa only [mem_cellsOf_iff] using hfold

section Move

variable {factors : Factors} {anchor new host : JsString}

/-- A host that is in the table, or is the anchor. -/
def Known (factors : Factors) (anchor host : JsString) : Prop :=
  host = anchor ∨ host ∈ factors.entries.map Prod.fst

instance (factors : Factors) (anchor host : JsString) : Decidable (Known factors anchor host) :=
  inferInstanceAs (Decidable (_ ∨ _))

theorem mem_hostsBut_iff :
    host ∈ hostsBut factors anchor new ↔ Known factors anchor host ∧ host ≠ new := by
  rw [hostsBut, List.mem_filter, decide_eq_true_eq, Known]
  refine and_congr_left fun _ => ?_
  split_ifs with hanchor
  · constructor
    · exact .inr
    · rintro (rfl | hmem)
      · exact hanchor
      · exact hmem
  · rw [List.mem_append, List.mem_singleton, or_comm]

theorem cellsAt_rebased (host : JsString) : cellsAt (rebased factors anchor new) host =
    if host ∈ hostsBut factors anchor new then
      divided (cellsAt factors new) (cellsAt factors host)
    else .empty := by
  have hfold := OrderedMap.read_foldl_write OrderedMap.get_set (fun host =>
    divided (cellsAt factors new) (cellsAt factors host)) (hostsBut factors anchor new) .empty host
  rw [cellsAt, rebased, hfold]
  split_ifs
  · rfl
  · rfl

/-- **A known host's factors are divided by those of the new anchor**, and no other's are kept. -/
theorem stored_rebased (host workClass : JsString) (bucket : Bucket) :
    stored (rebased factors anchor new) host workClass bucket =
      if host ∈ hostsBut factors anchor new then
        stored factors host workClass bucket / stored factors new workClass bucket
      else 1 := by
  rw [stored, cellOf, cellsAt_rebased]
  by_cases hmem : host ∈ hostsBut factors anchor new
  · rw [if_pos hmem, if_pos hmem, cellIn_divided _ _ (workClass, bucket)]
    have hscale := scaleAt_refScalesOf (cellsAt factors new) workClass bucket
    cases hown : cellIn (cellsAt factors new) workClass bucket with
    | none =>
      have hnew : stored factors new workClass bucket = 1 := by
        rw [stored, cellOf, hown]
        rfl
      rw [hnew, div_one]
      rfl
    | some cell =>
      rw [hown] at hscale
      simp [dividedCell, hscale, stored, cellOf, hown]
  · rw [if_neg hmem, if_neg hmem]
    rfl

end Move

/-! ### Every factor is positive -/

/-- **Every factor of the table is positive.** -/
def Positive (factors : Factors) : Prop :=
  ∀ host workClass bucket cell, cellOf factors host workClass bucket = some cell → 0 < cell.factor

theorem stored_pos {factors : Factors} (h : Positive factors) (host workClass : JsString)
    (bucket : Bucket) : 0 < stored factors host workClass bucket := by
  rw [stored]
  cases hcell : cellOf factors host workClass bucket with
  | none => exact one_pos
  | some cell => exact h host workClass bucket cell hcell

theorem positive_setCell {factors : Factors} (h : Positive factors) {host workClass : JsString}
    {bucket : Bucket} {cell : Cell} (hcell : 0 < cell.factor) :
    Positive (setCell factors host workClass bucket cell) := by
  intro host' workClass' bucket' cell' hcell'
  rw [setCell, cellOf, cellsAt_set] at hcell'
  by_cases hhost : host' = host
  · rw [if_pos hhost,
      cellIn_putCell _ (workClass, bucket) _ (workClass', bucket')] at hcell'
    split_ifs at hcell' with hsame
    · rwa [← Option.some.inj hcell']
    · exact h host workClass' bucket' cell' hcell'
  · rw [if_neg hhost] at hcell'
    exact h host' workClass' bucket' cell' hcell'

/-- A tenth of the way to an observation, which is held within bounds, a factor stays positive. -/
theorem average_pos {factor observed : ℝ} (hfactor : 0 < factor) (hobserved : 0 < observed) :
    0 < factor + alpha * (clamp observed (factor * ratioMin) (factor * ratioMax) - factor) := by
  have hbounded : 0 < clamp observed (factor * ratioMin) (factor * ratioMax) :=
    lt_min (mul_pos hfactor (by norm_num [ratioMax])) (lt_max_of_lt_right hobserved)
  calc 0 < 9 / 10 * factor + 1 / 10 * clamp observed (factor * ratioMin) (factor * ratioMax) := by
        positivity
    _ = factor + alpha * (clamp observed (factor * ratioMin) (factor * ratioMax) - factor) := by
        rw [alpha]
        ring

theorem positive_observeFactor {factors : Factors} (h : Positive factors)
    (host workClass : JsString) (estP50RefS wallS : ℝ) (censored : Bool) (anchor : JsString) :
    Positive (observeFactor factors host workClass estP50RefS wallS censored anchor) := by
  rw [observeFactor]
  by_cases hskip : host = anchor ∨ ¬0 < estP50RefS ∨ ¬0 < wallS
  · rwa [if_pos hskip]
  rw [if_neg hskip]
  rw [not_or, not_or, not_not, not_not] at hskip
  have hobserved : 0 < wallS / estP50RefS := div_pos hskip.2.2 hskip.2.1
  dsimp only
  cases hcell : cellOf factors host workClass (bucketOf estP50RefS) with
  | none =>
    refine positive_setCell h ?_
    cases censored with
    | true => exact lt_max_of_lt_left one_pos
    | false => exact hobserved
  | some cell =>
    have hfactor : 0 < cell.factor := h _ _ _ _ hcell
    refine positive_setCell h ?_
    cases censored with
    | true => exact lt_max_of_lt_left hfactor
    | false => exact average_pos hfactor hobserved

theorem positive_rebased {factors : Factors} (h : Positive factors) (anchor new : JsString) :
    Positive (rebased factors anchor new) := by
  intro host workClass bucket cell hcell
  have hstored : stored (rebased factors anchor new) host workClass bucket =
      cell.factor := by
    rw [stored, hcell]
    rfl
  rw [← hstored, stored_rebased]
  split_ifs
  · exact div_pos (stored_pos h ..) (stored_pos h ..)
  · exact one_pos

theorem positive_rebaseAnchor {factors : Factors} (h : Positive factors)
    (calibratedAt : CalibratedAt) (anchor : JsString) (now : ℝ) :
    Positive (rebaseAnchor factors calibratedAt anchor now).factors := by
  rw [rebaseAnchor]
  cases newAnchor factors calibratedAt anchor now with
  | none => exact h
  | some new => exact positive_rebased h anchor new

/-- **A table that is built has only positive factors.** -/
theorem Built.positive {factors : Factors} (h : Built factors) : Positive factors := by
  induction h with
  | empty => exact fun _ _ _ _ hcell => nomatch hcell
  | seed host workClass bucket factor anchor _ ih =>
    rw [seedFactor]
    split_ifs with hskip
    · exact ih
    · rw [not_or, not_not] at hskip
      exact positive_setCell ih hskip.2
  | observe host workClass estP50RefS wallS censored anchor _ ih =>
    exact positive_observeFactor ih host workClass estP50RefS wallS censored anchor
  | rebase calibratedAt anchor now _ ih => exact positive_rebaseAnchor ih calibratedAt anchor now

/-! ### What is predicted -/

/-- What an estimate is multiplied by where the anchor moves; one with no data stays. -/
def scale (factors : Factors) (new workClass : JsString) (state : Estimator) : ℝ :=
  if state.n = 0 then 1 else stored factors new workClass (bucketOf (p50Of state))

theorem p50Of_rescaleEstimator {factors : Factors} (h : Positive factors)
    (new workClass : JsString) (state : Estimator) :
    p50Of (rescaleEstimator state workClass (refScalesOf (cellsAt factors new))) =
      p50Of state * scale factors new workClass state := by
  rw [rescaleEstimator, scale]
  split_ifs with hn
  · rw [mul_one]
  · have hscale : (scaleAt (refScalesOf (cellsAt factors new)) workClass
        (bucketOf (p50Of state))).getD 1 =
          stored factors new workClass (bucketOf (p50Of state)) := by
      rw [scaleAt_refScalesOf]
      rfl
    dsimp only
    rw [hscale, p50Of, Real.exp_add, Real.exp_log (stored_pos h ..)]
    rfl

/-- A host's factor as a multiple of the new anchor's. -/
def relative (factors : Factors) (new host workClass : JsString) (bucket : Bucket) : ℝ :=
  stored factors host workClass bucket / stored factors new workClass bucket

/-- **Where a prediction stays**: for the new anchor, where the estimate is multiplied; for another
host that is known, where by the new anchor's measure it is as slow in the bucket of the multiplied
estimate as it was read to be before; for one that is not known, where the estimate stays. -/
def Keeps (factors : Factors) (anchor new host workClass : JsString) (state : Estimator) : Prop :=
  let scale := scale factors new workClass state
  if host = new then stored factors new workClass (bucketOf (p50Of state)) = scale
  else if Known factors anchor host then
    relative factors new host workClass (bucketOf (p50Of state * scale)) =
      factorFor factors host workClass (bucketOf (p50Of state)) anchor / scale
  else scale = 1

section Predicted

variable {factors : Factors} {anchor new : JsString}

theorem scale_pos (h : Positive factors) (new workClass : JsString) (state : Estimator) :
    0 < scale factors new workClass state := by
  rw [scale]
  split_ifs
  · exact one_pos
  · exact stored_pos h ..

theorem predicted_rebased (h : Positive factors) (host workClass : JsString) (state : Estimator) :
    predicted (rebased factors anchor new) new host workClass
        (rescaleEstimator state workClass (refScalesOf (cellsAt factors new))) =
      p50Of state * (scale factors new workClass state *
        if host = new then 1
        else if Known factors anchor host then
          relative factors new host workClass
            (bucketOf (p50Of state * scale factors new workClass state))
        else 1) := by
  rw [predicted, p50Of_rescaleEstimator h, mul_assoc, factorFor]
  by_cases hnew : host = new
  · rw [if_pos hnew, if_pos hnew]
  · have hknown : host ∈ hostsBut factors anchor new ↔ Known factors anchor host :=
      mem_hostsBut_iff.trans (and_iff_left hnew)
    rw [if_neg hnew, if_neg hnew, stored_rebased]
    simp only [hknown]
    rfl

theorem factorFor_of_not_known {host : JsString} (h : ¬Known factors anchor host)
    (workClass : JsString) (bucket : Bucket) :
    factorFor factors host workClass bucket anchor = 1 := by
  rw [Known, not_or] at h
  have hnone : factors.get host = none := by
    refine Option.eq_none_iff_forall_ne_some.2 fun cells hcells => h.2 ?_
    exact List.mem_map_of_mem (OrderedMap.get_eq_some_iff.1 hcells)
  rw [factorFor, if_neg h.1, stored, cellOf, cellsAt, hnone]
  rfl

/-- **A prediction stays just where `Keeps` says so.** -/
theorem predicted_rebased_eq_iff (h : Positive factors) (hnew : new ≠ anchor)
    (host workClass : JsString) (state : Estimator) :
    predicted (rebased factors anchor new) new host workClass
        (rescaleEstimator state workClass (refScalesOf (cellsAt factors new))) =
      predicted factors anchor host workClass state ↔
    Keeps factors anchor new host workClass state := by
  have hscale := scale_pos h new workClass state
  rw [predicted_rebased h, predicted, mul_right_inj' (p50Of_pos state).ne', Keeps]
  by_cases hhost : host = new
  · subst hhost
    rw [if_pos rfl, if_pos rfl, mul_one, factorFor, if_neg hnew, eq_comm]
  · rw [if_neg hhost, if_neg hhost]
    by_cases hknown : Known factors anchor host
    · rw [if_pos hknown, if_pos hknown, eq_div_iff hscale.ne', mul_comm]
    · rw [if_neg hknown, if_neg hknown, factorFor_of_not_known hknown, mul_one]

/-- **Within its bucket a prediction stays**, for a host that is known. -/
theorem keeps_of_same_bucket {host workClass : JsString} {state : Estimator}
    (hn : state.n ≠ 0) (hknown : Known factors anchor host)
    (hbucket : bucketOf (p50Of state * scale factors new workClass state) = bucketOf (p50Of state))
    (hanchor : factorFor factors host workClass (bucketOf (p50Of state)) anchor =
      stored factors host workClass (bucketOf (p50Of state))) :
    Keeps factors anchor new host workClass state := by
  have hscale : scale factors new workClass state =
      stored factors new workClass (bucketOf (p50Of state)) := if_neg hn
  rw [Keeps]
  by_cases hhost : host = new
  · rw [if_pos hhost, hscale]
  · rw [if_neg hhost, if_pos hknown, hbucket, hanchor, hscale, relative]

theorem mem_candidates_iff {calibratedAt : CalibratedAt} {now : ℝ} {c : Candidate} :
    c ∈ candidates factors calibratedAt anchor now ↔
      (c.host ∈ factors.entries.map Prod.fst ∧ c.host ≠ anchor ∧
        fresh calibratedAt now c.host = true ∧ hostCells (cellsAt factors c.host) ≠ []) ∧
      c.rank = geoMean (hostCells (cellsAt factors c.host)) := by
  rw [candidates, List.mem_mergeSort, List.mem_map]
  simp only [List.mem_filter, decide_eq_true_eq]
  constructor
  · rintro ⟨h, hh, rfl⟩
    exact ⟨hh, rfl⟩
  · rintro ⟨hh, hrank⟩
    exact ⟨c.host, hh, by rw [← hrank]⟩

/-- **The anchor moves to a host of the table, calibrated lately, that has cells.** -/
theorem newAnchor_eq_some {calibratedAt : CalibratedAt} {now : ℝ}
    (h : newAnchor factors calibratedAt anchor now = some new) :
    new ∈ factors.entries.map Prod.fst ∧ new ≠ anchor ∧ fresh calibratedAt now new = true ∧
      hostCells (cellsAt factors new) ≠ [] := by
  rw [newAnchor] at h
  split_ifs at h
  obtain ⟨c, hc, rfl⟩ := Option.map_eq_some_iff.1 h
  exact (mem_candidates_iff.1 (List.mem_of_getElem? hc)).1

end Predicted

/-- **Where the anchor moves, what is predicted for a host is the same before and after just where
the host's factors keep it.** -/
theorem predicted_rebase_iff {factors : Factors} (hbuilt : Built factors)
    {calibratedAt : CalibratedAt} {anchor : JsString} {now : ℝ}
    (hmoved : (rebaseAnchor factors calibratedAt anchor now).moved = true)
    (host workClass : JsString) (state : Estimator) :
    predicted (rebaseAnchor factors calibratedAt anchor now).factors
        (rebaseAnchor factors calibratedAt anchor now).anchor host workClass
        (rescaleEstimator state workClass
          (rebaseAnchor factors calibratedAt anchor now).refScales) =
      predicted factors anchor host workClass state ↔
    Keeps factors anchor (rebaseAnchor factors calibratedAt anchor now).anchor host workClass
      state := by
  rw [rebaseAnchor] at hmoved ⊢
  cases hnew : newAnchor factors calibratedAt anchor now with
  | none =>
    rw [hnew] at hmoved
    cases hmoved
  | some new =>
    exact predicted_rebased_eq_iff hbuilt.positive (newAnchor_eq_some hnew).2.1 host workClass state

/-- One host is in the table, slower in short tests by a factor. -/
def skyboxSlower (factor : ℝ) : Factors :=
  seedFactor .empty (js "skybox") (js "test") .short factor anchorHost

theorem skyboxSlower_built : Built (skyboxSlower 2) := .seed _ _ _ _ _ .empty

theorem skyboxSlower_eq :
    skyboxSlower 2 = setCell .empty (js "skybox") (js "test") .short { factor := 2, n := 0 } := by
  have hseeds : ¬(js "skybox" = anchorHost ∨ ¬(0 : ℝ) < 2) := by
    rintro (heq | hneg)
    · exact absurd heq (by decide)
    · exact hneg two_pos
  rw [skyboxSlower, seedFactor, if_neg hseeds]

theorem stored_skyboxSlower (host : JsString) (bucket : Bucket) :
    stored (skyboxSlower 2) host (js "test") bucket =
      if host = js "skybox" ∧ bucket = .short then 2 else 1 := by
  rw [stored, cellOf, skyboxSlower_eq, setCell, cellsAt_set]
  by_cases hhost : host = js "skybox"
  · rw [if_pos hhost, cellIn_putCell _ (js "test", .short) _ (js "test", bucket)]
    by_cases hbucket : bucket = .short
    · rw [if_pos (by rw [hbucket]), if_pos ⟨hhost, hbucket⟩]
      rfl
    · rw [if_neg (by simp [hbucket]), if_neg (by simp [hbucket])]
      rfl
  · rw [if_neg hhost, if_neg (by simp [hhost])]
    rfl

/-- Only it has been calibrated. -/
def skyboxCalibrated : CalibratedAt := fun h => if h = js "skybox" then some 0 else none

theorem newAnchor_skybox :
    newAnchor (skyboxSlower 2) skyboxCalibrated anchorHost 0 = some (js "skybox") := by
  have hanchor : fresh skyboxCalibrated 0 anchorHost = false := by
    rw [fresh, skyboxCalibrated, if_neg (by decide)]
    rfl
  have hfresh : fresh skyboxCalibrated 0 (js "skybox") = true := by
    rw [fresh, skyboxCalibrated, if_pos rfl]
    exact decide_eq_true (by norm_num [anchorStaleMs])
  have hkeys : (skyboxSlower 2).entries.map Prod.fst = [js "skybox"] := by
    rw [skyboxSlower_eq]
    rfl
  have hcells : hostCells (cellsAt (skyboxSlower 2) (js "skybox")) ≠ [] := by
    rw [skyboxSlower_eq]
    exact List.cons_ne_nil _ _
  have hone : ((skyboxSlower 2).entries.map Prod.fst).filter (fun h => h ≠ anchorHost ∧
      fresh skyboxCalibrated 0 h ∧ hostCells (cellsAt (skyboxSlower 2) h) ≠ []) = [js "skybox"] := by
    rw [hkeys]
    refine List.filter_eq_self.2 fun h hh => ?_
    rw [List.mem_singleton.1 hh]
    exact decide_eq_true ⟨by decide, hfresh, hcells⟩
  rw [newAnchor, hanchor, candidates, hone]
  simp

/-- An estimate of so many seconds, from one job. -/
def afterOne (seconds : ℝ) : Estimator where
  n := 1
  mu := Real.log seconds
  variance := (6 / 10) ^ 2
  censored := 0

theorem p50Of_afterOne {seconds : ℝ} (h : 0 < seconds) : p50Of (afterOne seconds) = seconds :=
  Real.exp_log h

theorem scale_afterOne {seconds : ℝ} (h : 0 < seconds) (hshort : seconds < 120) :
    scale (skyboxSlower 2) (js "skybox") (js "test") (afterOne seconds) = 2 := by
  rw [scale, if_neg (show (afterOne seconds).n ≠ 0 from one_ne_zero), p50Of_afterOne h,
    stored_skyboxSlower, bucketOf, if_pos hshort, if_pos ⟨rfl, rfl⟩]

theorem skybox_moved :
    (rebaseAnchor (skyboxSlower 2) skyboxCalibrated anchorHost 0).moved = true ∧
      (rebaseAnchor (skyboxSlower 2) skyboxCalibrated anchorHost 0).anchor = js "skybox" := by
  rw [rebaseAnchor, newAnchor_skybox]
  exact ⟨rfl, rfl⟩

/-- A job of fifty seconds, which are a hundred of the new anchor's, takes as long as before. -/
theorem predicted_rebase_iff_fifty :
    predicted (rebaseAnchor (skyboxSlower 2) skyboxCalibrated anchorHost 0).factors
        (rebaseAnchor (skyboxSlower 2) skyboxCalibrated anchorHost 0).anchor anchorHost (js "test")
        (rescaleEstimator (afterOne 50) (js "test")
          (rebaseAnchor (skyboxSlower 2) skyboxCalibrated anchorHost 0).refScales) =
      predicted (skyboxSlower 2) anchorHost anchorHost (js "test") (afterOne 50) := by
  refine (predicted_rebase_iff skyboxSlower_built skybox_moved.1 _ _ _).2 ?_
  rw [skybox_moved.2]
  refine keeps_of_same_bucket one_ne_zero (.inl rfl) ?_ ?_
  · rw [scale_afterOne (by norm_num) (by norm_num), p50Of_afterOne (by norm_num), bucketOf,
      bucketOf, if_pos (by norm_num), if_pos (by norm_num)]
  · rw [factorFor, if_pos rfl, stored_skyboxSlower, if_neg (by decide)]

/-- **A prediction doubles**: a job of a hundred seconds is one of two hundred on the new anchor,
and so in a bucket in which the old one is not twice as fast. -/
theorem prediction_doubles :
    Built (skyboxSlower 2) ∧ (rebaseAnchor (skyboxSlower 2) skyboxCalibrated anchorHost 0).moved = true ∧
    (cellOf (skyboxSlower 2) (rebaseAnchor (skyboxSlower 2) skyboxCalibrated anchorHost 0).anchor (js "test")
      (bucketOf (p50Of (afterOne 100)))).isSome ∧
    predicted (skyboxSlower 2) anchorHost anchorHost (js "test") (afterOne 100) = 100 ∧
    predicted (rebaseAnchor (skyboxSlower 2) skyboxCalibrated anchorHost 0).factors
        (rebaseAnchor (skyboxSlower 2) skyboxCalibrated anchorHost 0).anchor anchorHost (js "test")
        (rescaleEstimator (afterOne 100) (js "test")
          (rebaseAnchor (skyboxSlower 2) skyboxCalibrated anchorHost 0).refScales) = 200 := by
  refine ⟨skyboxSlower_built, skybox_moved.1, ?_, ?_, ?_⟩
  · rw [skybox_moved.2, p50Of_afterOne (by norm_num), bucketOf, if_pos (by norm_num), skyboxSlower_eq]
    rfl
  · rw [predicted, p50Of_afterOne (by norm_num), factorFor, if_pos rfl, mul_one]
  · have hscale := @scale_afterOne 100 (by norm_num) (by norm_num)
    have hmedium : bucketOf (100 * 2) = .medium := by
      rw [bucketOf, if_neg (by norm_num), if_pos (by norm_num)]
    rw [rebaseAnchor, newAnchor_skybox]
    dsimp only
    rw [predicted_rebased skyboxSlower_built.positive, hscale, p50Of_afterOne (by norm_num),
      if_neg (by decide), if_pos (.inl rfl), hmedium, relative, stored_skyboxSlower,
      stored_skyboxSlower, if_neg (by decide), if_neg (by decide)]
    norm_num

end

end SpeedFactors
end Scheduler
end LaneBroker
