/-
# When a runner is powered on

`scheduleProblem` and `runnerAvailability` of `runner-schedule.js`.  A window is given in times of the
clock of the runner's timezone, and the source looks for the instants that read them by three looks at
the offset.

What the report should say is stated over all days: it is right (`Right`) where, with one instant for
each time of the clock, the runner is available just within the windows of the days they start on, and
`closesAt` is the latest end.  Two things are in its way.  A time that is skipped is found before the
gap, if the offset behind the gap is in force at the instant of the same number: ahead of UTC that is
so.  And only the windows of today and yesterday are looked at, by a calendar day that a clock set back
or forward across midnight has more or less than once.  `Keeps` says of a window and a day that neither
happens; the report is right for every schedule of a zone just where every window keeps
(`runnerAvailability_right_iff`).
-/

import LaneBroker.Basis.JsText
import LaneBroker.Basis.Zone
import Mathlib.Data.List.Nodup
import Mathlib.Logic.Function.Iterate

namespace LaneBroker
namespace Client
namespace Schedule

open LaneBroker.Basis

/-! ### Values of the configuration -/

/-- **A parsed JSON value**, an absent field being undefined. -/
inductive Json
  | undefined
  | null
  | bool (b : Bool)
  | num (q : ℚ)
  | str (s : JsString)
  | arr (elements : List Json)
  | obj (fields : List (JsString × Json))

namespace Json

/-- `v[name]`, of an object. -/
def field (v : Json) (name : JsString) : Json :=
  match v with
  | obj fields => (fields.lookup name).getD undefined
  | _ => undefined

/-- `!v || typeof v !== 'object' || Array.isArray(v)` is false. -/
def isObject : Json → Bool
  | obj _ => true
  | _ => false

/-- The elements of an array. -/
def elements : Json → List Json
  | arr elements => elements
  | _ => []

/-- A string. -/
def text : Json → JsString
  | str s => s
  | _ => []

/-- `v === s`. -/
def isText (s : JsString) : Json → Bool
  | str t => t = s
  | _ => false

end Json

/-- **What the language and its `Intl` do.** -/
structure Host where
  /-- `new Intl.DateTimeFormat('en-US', { timeZone })` does not throw. -/
  known : JsString → Bool
  clock : JsString → Zone
  stringify : Json → JsString

/-! ### The source -/

/-- `SCHEDULE_DAYS`. -/
def SCHEDULE_DAYS : List JsString :=
  [js "mon", js "tue", js "wed", js "thu", js "fri", js "sat", js "sun"]

/-- `DAY_MS`. -/
def DAY_MS : ℤ := 86400000

/-- `\d`. -/
def digit? (c : UInt16) : Option ℕ :=
  if 0x30 ≤ c ∧ c ≤ 0x39 then some (c.toNat - 0x30) else none

/-- **`TIME_RE.exec`**, the two groups as numbers. -/
def TIME_RE : JsString → Option (ℕ × ℕ)
  | [h₁, h₂, colon, m₁, m₂] =>
    match digit? h₁, digit? h₂, digit? m₁, digit? m₂ with
    | some a, some b, some c, some d =>
      if colon = 0x3a ∧ (a ≤ 1 ∨ a = 2 ∧ b ≤ 3) ∧ c ≤ 5 then some (10 * a + b, 10 * c + d) else none
    | _, _, _, _ => none
  | _ => none

/-- `minutesOf`. -/
def minutesOf (hhmm : JsString) : ℤ :=
  match TIME_RE hhmm with
  | some (h, m) => h * 60 + m
  | none => 0

section Problem

variable (host : Host)

/-- `"${at}${rest}`, the quotation mark closed in the rest. -/
def about (place rest : JsString) : JsString := js "\"" ++ place ++ rest

/-- The check of `from` or `to`. -/
def timeProblem (place : JsString) (win : Json) (field : JsString) : Option JsString :=
  let problem := about place (js "." ++ field ++ js "\" must be a 24-hour \"HH:MM\" time, got " ++
    host.stringify (win.field field))
  match win.field field with
  | .str s => if (TIME_RE s).isSome then none else some problem
  | _ => some problem

/-- What stands in the loop over the windows. -/
def windowProblem (place : JsString) (win : Json) : Option JsString :=
  if !win.isObject then some (about place (js "\" must be an object"))
  else
    match win.field (js "days") with
    | .arr [] => some (about place (js ".days\" must be a non-empty array"))
    | .arr days =>
      match days.find? fun day => !SCHEDULE_DAYS.any fun name => day.isText name with
      | some day =>
        some (about place (js ".days\" has an unknown day " ++ host.stringify day ++ js " (use " ++
          (js ", ").intercalate SCHEDULE_DAYS ++ js ")"))
      | none =>
        if ¬ (days.map Json.text).Nodup then some (about place (js ".days\" lists a day twice"))
        else
          (timeProblem host place win (js "from")).or <|
          (timeProblem host place win (js "to")).or <|
          if (win.field (js "from")).text = (win.field (js "to")).text then
            some (about place (js "\" has from equal to to (an empty or ambiguous window)"))
          else none
    | _ => some (about place (js ".days\" must be a non-empty array"))

/-- The loop over the windows. -/
def windowsProblem : ℕ → List Json → Option JsString
  | _, [] => none
  | i, win :: wins =>
    (windowProblem host (js "schedule.available[" ++ js (toString i) ++ js "]") win).or
      (windowsProblem (i + 1) wins)

/-- **`scheduleProblem`.** -/
def scheduleProblem (schedule : Json) : Option JsString :=
  if !schedule.isObject then some (js "\"schedule\" must be an object")
  else
    match schedule.field (js "timezone") with
    | .str timezone =>
      if timezone = [] then
        some (js "\"schedule.timezone\" must be a non-empty IANA timezone name")
      else if !host.known timezone then
        some (js "\"schedule.timezone\" is not a known timezone: " ++ host.stringify (.str timezone))
      else
        match schedule.field (js "available") with
        | .arr [] => some (js "\"schedule.available\" must be a non-empty array of windows")
        | .arr wins => windowsProblem host 0 wins
        | _ => some (js "\"schedule.available\" must be a non-empty array of windows")
    | _ => some (js "\"schedule.timezone\" must be a non-empty IANA timezone name")

end Problem

/-- **`wallMs`**: whole seconds. -/
def wallMs (z : Zone) (ms : ℤ) : ℤ := z.wall ms / 1000 * 1000

/-- **`instantOf`.** -/
def instantOf (z : Zone) (wall : ℤ) : ℤ :=
  (fun guess => wall - (wallMs z guess - guess))^[3] wall

/-- `SCHEDULE_DAYS[(new Date(dayStart).getUTCDay() + 6) % 7]`. -/
def dayName (dayStart : ℤ) : JsString :=
  let getUTCDay := (dayStart / DAY_MS + 4) % 7
  SCHEDULE_DAYS.getD ((getUTCDay + 6) % 7).toNat []

/-- What `runnerAvailability` returns. -/
structure Availability where
  available : Bool
  closesAt : Option ℤ

/-- What stands in the loop over `[-1, 0]`. -/
def lookAt (z : Zone) (now todayStart : ℤ) (win : Json) (closesAt : Option ℤ) (offset : ℤ) :
    Option ℤ :=
  let fromMin := minutesOf (win.field (js "from")).text
  let toMin := minutesOf (win.field (js "to")).text
  let dayStart := todayStart + offset * DAY_MS
  if !(win.field (js "days")).elements.any fun day => day.isText (dayName dayStart) then closesAt
  else
    let start := instantOf z (dayStart + fromMin * 60000)
    let stop := instantOf z (dayStart + (if fromMin < toMin then toMin else toMin + 1440) * 60000)
    if start ≤ now ∧ now < stop ∧ closesAt.all (· < stop) then some stop else closesAt

/-- **`runnerAvailability`.** -/
def runnerAvailability (clock : JsString → Zone) (schedule : Option Json) (now : ℤ) :
    Availability :=
  match schedule with
  | none => { available := true, closesAt := none }
  | some schedule =>
    let z := clock (schedule.field (js "timezone")).text
    let wallNow := wallMs z now
    let todayStart := wallNow - (wallNow.tmod DAY_MS + DAY_MS).tmod DAY_MS
    let closesAt := (schedule.field (js "available")).elements.foldl
      (fun closesAt win => [-1, 0].foldl (lookAt z now todayStart win) closesAt) none
    { available := closesAt.isSome, closesAt }

/-! ### What a schedule means -/

/-- The day that the clock shows. -/
def dayOf (z : Zone) (t : ℤ) : ℤ := z.wall t / DAY_MS

/-- The time at which the window of a day begins. -/
def startWall (d fromMin : ℤ) : ℤ := d * DAY_MS + fromMin * 60000

/-- The time at which it ends, on the next day where it crosses midnight. -/
def stopWall (d fromMin toMin : ℤ) : ℤ :=
  d * DAY_MS + (if fromMin < toMin then toMin else toMin + 1440) * 60000

/-- `from`, in minutes. -/
def fromMin (win : Json) : ℤ := minutesOf (win.field (js "from")).text

/-- `to`, in minutes. -/
def toMin (win : Json) : ℤ := minutesOf (win.field (js "to")).text

/-- The windows. -/
def windows (schedule : Json) : List Json := (schedule.field (js "available")).elements

/-- The zone. -/
def zoneOf (clock : JsString → Zone) (schedule : Json) : Zone :=
  clock (schedule.field (js "timezone")).text

/-- The day is one of the start days of the window. -/
def Declared (win : Json) (d : ℤ) : Prop :=
  ((win.field (js "days")).elements.any fun day => day.isText (dayName (d * DAY_MS))) = true

/-- **The ends of the windows that an instant is in**, with instants for the times. -/
def Ends (meant : ℤ → ℤ) (schedule : Json) (now : ℤ) : Set ℤ :=
  {e | ∃ win ∈ windows schedule, ∃ d, Declared win d ∧ meant (startWall d (fromMin win)) ≤ now ∧
    now < meant (stopWall d (fromMin win) (toMin win)) ∧
    meant (stopWall d (fromMin win) (toMin win)) = e}

/-- **The report is right**, with these instants for the times. -/
def Right (clock : JsString → Zone) (meant : ℤ → ℤ) (schedule : Json) (now : ℤ) : Prop :=
  ((runnerAvailability clock (some schedule) now).available = true ↔
    (Ends meant schedule now).Nonempty) ∧
  ∀ e, (runnerAvailability clock (some schedule) now).closesAt = some e ↔
    IsGreatest (Ends meant schedule now) e

/-- **The window of the day keeps**: it does not begin or end in a gap that its time counts behind of,
and once it has begun, or before it has ended, the clock does not show a day that it is not looked for
on. -/
structure Keeps (z : Zone) (d fromMin toMin : ℤ) : Prop where
  start : z.Kept (startWall d fromMin) →
    z.off (startWall d fromMin) ≤ z.off (startWall d fromMin - z.off (startWall d fromMin)) ∧
    ∀ t, startWall d fromMin - z.off (startWall d fromMin) < t → d ≤ dayOf z t
  stop : z.Kept (stopWall d fromMin toMin) →
    z.off (stopWall d fromMin toMin) ≤
      z.off (stopWall d fromMin toMin - z.off (stopWall d fromMin toMin)) ∧
    ∀ t, t < stopWall d fromMin toMin - z.off (stopWall d fromMin toMin) → dayOf z t ≤ d + 1

/-! ### What the source looks at -/

section Seen

variable {z : Zone} {clock : JsString → Zone} {schedule : Json} {now w : ℤ}

theorem wallMs_sub {g : ℤ} (h : 1000 ∣ g) : wallMs z g - g = z.off g := by
  have := z.whole g
  simp only [wallMs, Zone.wall]
  omega

theorem dvd_found (h : 1000 ∣ w) (g : ℤ) : 1000 ∣ w - z.off g := Int.dvd_sub h (z.whole g)

/-- **Three rounds.** -/
theorem instantOf_eq (h : 1000 ∣ w) : instantOf z w = z.found w := by
  show w - (wallMs z (w - (wallMs z (w - (wallMs z w - w)) - (w - (wallMs z w - w)))) -
    (w - (wallMs z (w - (wallMs z w - w)) - (w - (wallMs z w - w))))) = _
  rw [wallMs_sub h, wallMs_sub (dvd_found h w), wallMs_sub (dvd_found h _)]
  rfl

/-- **The midnight before**, of the clock. -/
theorem todayStart_eq :
    wallMs z now - ((wallMs z now).tmod DAY_MS + DAY_MS).tmod DAY_MS = dayOf z now * DAY_MS := by
  have hpos : (0 : ℤ) < DAY_MS := by decide
  have hnonneg : 0 ≤ (wallMs z now).tmod DAY_MS + DAY_MS := by
    have := Int.lt_tmod_of_pos (wallMs z now) hpos
    omega
  have hdiv := Int.mul_tdiv_add_tmod (wallMs z now) DAY_MS
  rw [Int.tmod_eq_emod_of_nonneg hnonneg, Int.add_emod_right]
  have hmod : (wallMs z now).tmod DAY_MS % DAY_MS = wallMs z now % DAY_MS := by
    conv_rhs => rw [← hdiv]
    rw [Int.add_emod, Int.mul_emod_right, Int.zero_add, Int.emod_emod]
  rw [hmod]
  simp only [wallMs, dayOf, DAY_MS]
  omega

/-- The latest of some ends, if there are any. -/
def Latest (S : Set ℤ) : Option ℤ → Prop
  | none => S = ∅
  | some e => IsGreatest S e

theorem Latest.eq_some_iff {S : Set ℤ} {c : Option ℤ} (h : Latest S c) {e : ℤ} :
    c = some e ↔ IsGreatest S e := by
  cases c with
  | none =>
    obtain rfl : S = ∅ := h
    exact iff_of_false (by rintro ⟨⟩) fun he => he.1
  | some e' =>
    refine ⟨fun he => Option.some.inj he ▸ h, fun he => ?_⟩
    rw [IsGreatest.unique h he]

theorem Latest.isSome_iff {S : Set ℤ} {c : Option ℤ} (h : Latest S c) :
    c.isSome = true ↔ S.Nonempty := by
  cases c with
  | none =>
    obtain rfl : S = ∅ := h
    exact iff_of_false (by rintro ⟨⟩) Set.not_nonempty_empty
  | some e => exact iff_of_true rfl ⟨e, h.1⟩

/-- The window is open on this day, as the source looks for it. -/
def OpenOn (z : Zone) (now : ℤ) (win : Json) (d : ℤ) : Prop :=
  Declared win d ∧ z.found (startWall d (fromMin win)) ≤ now ∧
    now < z.found (stopWall d (fromMin win) (toMin win))

/-- The end of the window of the day that `offset` says, where it is open. -/
def seenOn (z : Zone) (now : ℤ) (win : Json) (offset : ℤ) : Set ℤ :=
  {e | OpenOn z now win (dayOf z now + offset) ∧
    z.found (stopWall (dayOf z now + offset) (fromMin win) (toMin win)) = e}

theorem dvd_startWall (d m : ℤ) : 1000 ∣ startWall d m := by
  simp only [startWall, DAY_MS]
  omega

theorem dvd_stopWall (d m m' : ℤ) : 1000 ∣ stopWall d m m' := by
  simp only [stopWall, DAY_MS]
  omega

instance (win : Json) (d : ℤ) : Decidable (Declared win d) := instDecidableEqBool _ _

instance (win : Json) (d : ℤ) : Decidable (OpenOn z now win d) := instDecidableAnd

theorem lookAt_eq (win : Json) (c : Option ℤ) (offset : ℤ) :
    lookAt z now (dayOf z now * DAY_MS) win c offset =
      if OpenOn z now win (dayOf z now + offset) ∧
          c.all (· < z.found (stopWall (dayOf z now + offset) (fromMin win) (toMin win))) = true then
        some (z.found (stopWall (dayOf z now + offset) (fromMin win) (toMin win)))
      else c := by
  have hday : dayOf z now * DAY_MS + offset * DAY_MS = (dayOf z now + offset) * DAY_MS :=
    (Int.add_mul ..).symm
  have hstart : instantOf z ((dayOf z now + offset) * DAY_MS +
      minutesOf (win.field (js "from")).text * 60000) =
        z.found (startWall (dayOf z now + offset) (fromMin win)) := instantOf_eq (dvd_startWall _ _)
  have hstop : instantOf z ((dayOf z now + offset) * DAY_MS +
      (if minutesOf (win.field (js "from")).text < minutesOf (win.field (js "to")).text then
        minutesOf (win.field (js "to")).text else
        minutesOf (win.field (js "to")).text + 1440) * 60000) =
        z.found (stopWall (dayOf z now + offset) (fromMin win) (toMin win)) :=
    instantOf_eq (dvd_stopWall _ _ _)
  unfold lookAt
  simp only [hday, hstart, hstop]
  by_cases hdeclared : Declared win (dayOf z now + offset)
  · have hany := hdeclared
    rw [Declared] at hany
    simp only [hany, OpenOn, hdeclared, true_and, and_assoc, Bool.not_true, Bool.false_eq_true,
      if_false]
  · have hany := hdeclared
    rw [Declared, Bool.not_eq_true] at hany
    simp only [hany, OpenOn, hdeclared, false_and, Bool.not_false, if_true, if_false]

/-- **One look.** -/
theorem latest_lookAt {S : Set ℤ} {c : Option ℤ} (h : Latest S c) (win : Json) (offset : ℤ) :
    Latest (S ∪ seenOn z now win offset)
      (lookAt z now (dayOf z now * DAY_MS) win c offset) := by
  rw [lookAt_eq]
  by_cases hopen : OpenOn z now win (dayOf z now + offset)
  · set e := z.found (stopWall (dayOf z now + offset) (fromMin win) (toMin win)) with he
    have hseen : seenOn z now win offset = {e} := by
      ext e'
      exact ⟨fun h => h.2.symm, fun h => ⟨hopen, h.symm⟩⟩
    simp only [hopen, true_and, hseen]
    cases c with
    | none =>
      obtain rfl : S = ∅ := h
      rw [Option.all_none, if_pos rfl, Set.empty_union]
      exact isGreatest_singleton
    | some e' =>
      simp only [Option.all_some, decide_eq_true_eq]
      split_ifs with hlt
      · refine ⟨Set.mem_union_right _ rfl, ?_⟩
        rintro x (hx | rfl)
        · exact (h.2 hx).trans hlt.le
        · exact le_rfl
      · refine ⟨Set.mem_union_left _ h.1, ?_⟩
        rintro x (hx | rfl)
        · exact h.2 hx
        · exact not_lt.1 hlt
  · have hseen : seenOn z now win offset = ∅ :=
      Set.eq_empty_of_forall_notMem fun e he => hopen he.1
    rwa [if_neg fun h => hopen h.1, hseen, Set.union_empty]

/-- **The ends that the source sees**: of the windows of today and yesterday. -/
def Seen (z : Zone) (schedule : Json) (now : ℤ) : Set ℤ :=
  {e | ∃ win ∈ windows schedule, ∃ d, (d = dayOf z now - 1 ∨ d = dayOf z now) ∧
    OpenOn z now win d ∧ z.found (stopWall d (fromMin win) (toMin win)) = e}

theorem latest_foldl {S : Set ℤ} {c : Option ℤ} (wins : List Json) (h : Latest S c) :
    Latest (S ∪ {e | ∃ win ∈ wins, e ∈ seenOn z now win (-1) ∪ seenOn z now win 0})
      (wins.foldl (fun c win => [-1, 0].foldl (lookAt z now (dayOf z now * DAY_MS) win) c) c) := by
  induction wins generalizing S c with
  | nil =>
    have hnil : {e | ∃ win ∈ ([] : List Json),
        e ∈ seenOn z now win (-1) ∪ seenOn z now win 0} = ∅ :=
      Set.eq_empty_of_forall_notMem fun e he => by
        obtain ⟨win, hwin, -⟩ := he
        cases hwin
    rwa [hnil, Set.union_empty]
  | cons win wins ih =>
    have hone := @latest_lookAt z now _ _ h win (-1)
    have hrest := ih (@latest_lookAt z now _ _ hone win 0)
    have hset : S ∪ seenOn z now win (-1) ∪ seenOn z now win 0 ∪
        {e | ∃ win ∈ wins, e ∈ seenOn z now win (-1) ∪ seenOn z now win 0} =
        S ∪ {e | ∃ win' ∈ win :: wins, e ∈ seenOn z now win' (-1) ∪ seenOn z now win' 0} := by
      ext e
      simp only [Set.mem_union, Set.mem_ofPred_eq, List.exists_mem_cons_iff, or_assoc]
    rwa [hset] at hrest

/-- **What is reported**: the latest end that is seen. -/
theorem latest_closesAt (clock : JsString → Zone) (schedule : Json) (now : ℤ) :
    Latest (Seen (zoneOf clock schedule) schedule now)
      (runnerAvailability clock (some schedule) now).closesAt := by
  have hfold := @latest_foldl (zoneOf clock schedule) now ∅ none (windows schedule) rfl
  have hseen : ∅ ∪ {e | ∃ win ∈ windows schedule,
      e ∈ seenOn (zoneOf clock schedule) now win (-1) ∪ seenOn (zoneOf clock schedule) now win 0} =
      Seen (zoneOf clock schedule) schedule now := by
    ext e
    simp only [Set.empty_union, Set.mem_ofPred_eq, Set.mem_union, seenOn, Seen, Int.add_zero,
      ← sub_eq_add_neg]
    constructor
    · rintro ⟨win, hwin, ⟨hopen, he⟩ | ⟨hopen, he⟩⟩
      · exact ⟨win, hwin, _, .inl rfl, hopen, he⟩
      · exact ⟨win, hwin, _, .inr rfl, hopen, he⟩
    · rintro ⟨win, hwin, d, rfl | rfl, hopen, he⟩
      · exact ⟨win, hwin, .inl ⟨hopen, he⟩⟩
      · exact ⟨win, hwin, .inr ⟨hopen, he⟩⟩
  rw [hseen] at hfold
  simp only [runnerAvailability]
  rw [todayStart_eq]
  exact hfold

/-- **The report is right** where what is seen and what is meant have the same latest end. -/
theorem right_iff {meant : ℤ → ℤ} :
    Right clock meant schedule now ↔
      Latest (Ends meant schedule now) (runnerAvailability clock (some schedule) now).closesAt := by
  constructor
  · rintro ⟨havailable, hcloses⟩
    cases hc : (runnerAvailability clock (some schedule) now).closesAt with
    | none =>
      refine Set.not_nonempty_iff_eq_empty.1 fun hsome => ?_
      have htrue : (runnerAvailability clock (some schedule) now).closesAt.isSome = true :=
        havailable.2 hsome
      rw [hc] at htrue
      cases htrue
    | some e => exact (hcloses e).1 hc
  · exact fun h => ⟨h.isSome_iff, fun e => h.eq_some_iff⟩

end Seen

/-! ### Where every window keeps -/

section Keeps

variable {z : Zone} {clock : JsString → Zone} {schedule : Json} {now d m m' w t : ℤ}

/-- The day of a time is not after the day that the clock shows when it is past the time. -/
theorem le_dayOf (h : d * DAY_MS ≤ z.wall t) : d ≤ dayOf z t :=
  (Int.le_ediv_iff_mul_le (by decide)).2 h

theorem dayOf_lt (h : z.wall t < d * DAY_MS) : dayOf z t < d :=
  (Int.ediv_lt_iff_lt_mul (by decide)).2 h

theorem mul_le_wall (h : d ≤ dayOf z t) : d * DAY_MS ≤ z.wall t :=
  (Int.le_ediv_iff_mul_le (by decide)).1 h

theorem wall_lt_mul (h : dayOf z t < d) : z.wall t < d * DAY_MS :=
  (Int.ediv_lt_iff_lt_mul (by decide)).1 h

theorem Keeps.denotes (h : Keeps z d m m') :
    z.Denotes (startWall d m) (z.found (startWall d m)) ∧
      z.Denotes (stopWall d m m') (z.found (stopWall d m m')) := by
  rw [Zone.denotes_found_iff, Zone.denotes_found_iff]
  exact ⟨fun hearly => absurd (h.start hearly.1).1 (not_le.2 hearly.2),
    fun hearly => absurd (h.stop hearly.1).1 (not_le.2 hearly.2)⟩

/-- **Once the window has begun it is looked for**, today or later. -/
theorem Keeps.le_dayOf (h : Keeps z d m m') (hm : 0 ≤ m)
    (ht : z.found (startWall d m) ≤ t) : d ≤ dayOf z t := by
  have hday : d * DAY_MS ≤ startWall d m := by
    simp only [startWall]
    omega
  by_cases hkept : z.Kept (startWall d m)
  · rw [Zone.found_of_kept hkept] at ht
    rcases ht.lt_or_eq with ht | rfl
    · exact (h.start hkept).2 t ht
    · refine Schedule.le_dayOf (hday.trans ?_)
      have := h.denotes.1.le_wall
      rwa [Zone.found_of_kept hkept] at this
  · exact Schedule.le_dayOf (hday.trans ((Zone.found_le_iff hkept).1 ht))

/-- **Until it has ended it is looked for**, tomorrow or before. -/
theorem Keeps.dayOf_le (h : Keeps z d m m') (hm' : m' < 1440)
    (ht : t < z.found (stopWall d m m')) : dayOf z t ≤ d + 1 := by
  have hday : stopWall d m m' < (d + 2) * DAY_MS := by
    simp only [stopWall, DAY_MS]
    split_ifs <;> omega
  by_cases hkept : z.Kept (stopWall d m m')
  · rw [Zone.found_of_kept hkept] at ht
    exact (h.stop hkept).2 t ht
  · have hwall : z.wall t < stopWall d m m' := not_le.1 fun hle =>
      absurd ((Zone.found_le_iff hkept).2 hle) (not_le.2 ht)
    have := dayOf_lt (hwall.trans hday)
    omega

/-- The source's instants, where they may stand for their times. -/
noncomputable def foundOrAny (z : Zone) (w : ℤ) : ℤ := by
  classical
  exact if z.Denotes w (z.found w) then z.found w else (z.exists_denotes w).choose

theorem interprets_foundOrAny (z : Zone) : z.Interprets (foundOrAny z) := by
  intro w
  unfold foundOrAny
  split_ifs with h
  · exact h
  · exact (z.exists_denotes w).choose_spec

theorem foundOrAny_eq (h : z.Denotes w (z.found w)) : foundOrAny z w = z.found w := by
  unfold foundOrAny
  rw [if_pos h]

theorem digit_le {c : UInt16} {n : ℕ} (h : digit? c = some n) : n ≤ 9 := by
  unfold digit? at h
  split_ifs at h with hdigit
  have hle := UInt16.le_iff_toNat_le.1 hdigit.2
  have hn := Option.some.inj h
  simp only [UInt16.reduceToNat] at hle
  omega

theorem TIME_RE_bounds {s : JsString} {h m : ℕ} (heq : TIME_RE s = some (h, m)) :
    h < 24 ∧ m < 60 := by
  unfold TIME_RE at heq
  split at heq
  · split at heq
    case h_1 a b c d _ hb _ hd =>
      split_ifs at heq with hgood
      obtain ⟨rfl, rfl⟩ := Prod.mk.inj (Option.some.inj heq)
      have hb := digit_le hb
      have hd := digit_le hd
      omega
    case h_2 => cases heq
  · cases heq

theorem minutesOf_bounds (s : JsString) : 0 ≤ minutesOf s ∧ minutesOf s < 1440 := by
  unfold minutesOf
  split
  · rename_i heq
    have := TIME_RE_bounds heq
    omega
  · omega

/-- **Where every window of the schedule keeps, the report is right.** -/
theorem right_of_keeps
    (h : ∀ win ∈ windows schedule, ∀ d, Declared win d →
      Keeps (zoneOf clock schedule) d (fromMin win) (toMin win)) (now : ℤ) :
    Right clock (foundOrAny (zoneOf clock schedule)) schedule now := by
  have hends : Ends (foundOrAny (zoneOf clock schedule)) schedule now =
      Seen (zoneOf clock schedule) schedule now := by
    ext e
    constructor
    · rintro ⟨win, hwin, d, hdeclared, hstart, hstop, he⟩
      have hkeeps := h win hwin d hdeclared
      obtain ⟨hs, hp⟩ := hkeeps.denotes
      rw [foundOrAny_eq hs] at hstart
      rw [foundOrAny_eq hp] at hstop he
      have hfrom := minutesOf_bounds (win.field (js "from")).text
      have hto := minutesOf_bounds (win.field (js "to")).text
      have hle := hkeeps.le_dayOf hfrom.1 hstart
      have hge := hkeeps.dayOf_le hto.2 hstop
      exact ⟨win, hwin, d, by omega, ⟨hdeclared, hstart, hstop⟩, he⟩
    · rintro ⟨win, hwin, d, -, ⟨hdeclared, hstart, hstop⟩, he⟩
      obtain ⟨hs, hp⟩ := (h win hwin d hdeclared).denotes
      refine ⟨win, hwin, d, hdeclared, ?_, ?_, ?_⟩
      · rwa [foundOrAny_eq hs]
      · rwa [foundOrAny_eq hp]
      · rwa [foundOrAny_eq hp]
  rw [right_iff, hends]
  exact latest_closesAt clock schedule now

end Keeps

/-! ### Schedules of one window -/

/-- The digit of a number. -/
def digit (n : ℕ) : UInt16 := UInt16.ofNat (0x30 + n)

/-- A time of the clock, in minutes, as a text. -/
def timeText (m : ℕ) : JsString :=
  [digit (m / 60 / 10), digit (m / 60 % 10), 0x3a, digit (m % 60 / 10), digit (m % 60 % 10)]

/-- A window on one day of the week. -/
def window (day : JsString) (m m' : ℕ) : Json :=
  .obj [(js "days", .arr [.str day]), (js "from", .str (timeText m)), (js "to", .str (timeText m'))]

/-- **A schedule of one window.** -/
def oneWindow (timezone day : JsString) (m m' : ℕ) : Json :=
  .obj [(js "timezone", .str timezone), (js "available", .arr [window day m m'])]

section OneWindow

variable {host : Host} {clock : JsString → Zone} {timezone day : JsString} {m m' : ℕ}

theorem digit?_digit {n : ℕ} (h : n < 10) : digit? (digit n) = some n := by
  have hsmall : ∀ n < 10, digit? (digit n) = some n := by decide
  exact hsmall n h

theorem TIME_RE_timeText (h : m < 1440) : TIME_RE (timeText m) = some (m / 60, m % 60) := by
  have hgood : (m / 60 / 10 ≤ 1 ∨ m / 60 / 10 = 2 ∧ m / 60 % 10 ≤ 3) ∧ m % 60 / 10 ≤ 5 := by omega
  simp only [TIME_RE, timeText, digit?_digit (show m / 60 / 10 < 10 by omega),
    digit?_digit (show m / 60 % 10 < 10 by omega), digit?_digit (show m % 60 / 10 < 10 by omega),
    digit?_digit (show m % 60 % 10 < 10 by omega), true_and, if_pos hgood]
  rw [Nat.div_add_mod, Nat.div_add_mod]

theorem minutesOf_timeText (h : m < 1440) : minutesOf (timeText m) = m := by
  simp only [minutesOf, TIME_RE_timeText h]
  omega

theorem timezone_oneWindow :
    (oneWindow timezone day m m').field (js "timezone") = .str timezone := rfl

theorem windows_oneWindow : windows (oneWindow timezone day m m') = [window day m m'] := by
  rw [windows, oneWindow]
  rfl

theorem fromMin_window (h : m < 1440) : fromMin (window day m m') = m := minutesOf_timeText h

theorem toMin_window (h : m' < 1440) : toMin (window day m m') = m' := minutesOf_timeText h

theorem declared_window {d : ℤ} : Declared (window day m m') d ↔ day = dayName (d * DAY_MS) := by
  have hdays : ((window day m m').field (js "days")).elements = [.str day] := rfl
  rw [Declared, hdays, List.any_cons, List.any_nil, Bool.or_false]
  exact decide_eq_true_iff

/-- **It is accepted.** -/
theorem scheduleProblem_oneWindow (hknown : host.known timezone = true) (hne : timezone ≠ [])
    (hday : day ∈ SCHEDULE_DAYS) (hm : m < 1440) (hm' : m' < 1440) (hdiffer : m ≠ m') :
    scheduleProblem host (oneWindow timezone day m m') = none := by
  have htexts : timeText m ≠ timeText m' := by
    intro heq
    have := congrArg minutesOf heq
    rw [minutesOf_timeText hm, minutesOf_timeText hm'] at this
    omega
  have hnamed : (SCHEDULE_DAYS.any fun name => (Json.str day).isText name) = true :=
    List.any_eq_true.2 ⟨day, hday, decide_eq_true rfl⟩
  have hfind : ([Json.str day].find? fun d => !SCHEDULE_DAYS.any fun name => d.isText name) =
      none := by
    rw [List.find?_cons, hnamed]
    rfl
  have hdays : (window day m m').field (js "days") = .arr [.str day] := rfl
  have hfrom : (window day m m').field (js "from") = .str (timeText m) := rfl
  have hto : (window day m m').field (js "to") = .str (timeText m') := rfl
  have hwindow (place : JsString) : windowProblem host place (window day m m') = none := by
    have hobject : (window day m m').isObject = true := rfl
    simp only [windowProblem, hobject, hdays, hfind, timeProblem, hfrom, hto, TIME_RE_timeText hm,
      TIME_RE_timeText hm', Json.text, htexts, List.map_cons, List.map_nil, Bool.not_true,
      Bool.false_eq_true, if_false, Option.isSome_some, if_true, Option.none_or, List.nodup_singleton,
      not_true_eq_false]
  have havailable : (oneWindow timezone day m m').field (js "available") =
      .arr [window day m m'] := rfl
  have hobject : (oneWindow timezone day m m').isObject = true := rfl
  simp only [scheduleProblem, hobject, timezone_oneWindow, havailable, hne, hknown, windowsProblem,
    hwindow, Bool.not_true, Bool.false_eq_true, if_false, Option.none_or]

variable {z : Zone} {t d k : ℤ}

theorem dayName_mul (k : ℤ) :
    dayName (k * DAY_MS) = SCHEDULE_DAYS.getD ((k + 3) % 7).toNat [] := by
  have hindex : ((k + 4) % 7 + 6) % 7 = (k + 3) % 7 := by omega
  rw [dayName, Int.mul_ediv_cancel k (by decide), hindex]

/-- **The name of a day** comes again after seven days. -/
theorem emod_of_dayName (h : dayName (d * DAY_MS) = dayName (k * DAY_MS)) : d % 7 = k % 7 := by
  have hinj : ∀ i j : Fin 7, SCHEDULE_DAYS.getD i [] = SCHEDULE_DAYS.getD j [] → i = j := by decide
  rw [dayName_mul, dayName_mul] at h
  have := hinj ⟨((d + 3) % 7).toNat, by omega⟩ ⟨((k + 3) % 7).toNat, by omega⟩ h
  rw [Fin.mk.injEq] at this
  omega

theorem dayName_mem (k : ℤ) : dayName (k * DAY_MS) ∈ SCHEDULE_DAYS := by
  have hmem : ∀ i : Fin 7, SCHEDULE_DAYS.getD i [] ∈ SCHEDULE_DAYS := by decide
  rw [dayName_mul]
  exact hmem ⟨((k + 3) % 7).toNat, by omega⟩

/-- **What is seen of it.** -/
theorem mem_seen_oneWindow (hm : m < 1440) (hm' : m' < 1440) {e : ℤ} :
    e ∈ Seen z (oneWindow timezone (dayName (d * DAY_MS)) m m') t ↔
      ∃ k, (k = dayOf z t - 1 ∨ k = dayOf z t) ∧ dayName (d * DAY_MS) = dayName (k * DAY_MS) ∧
        z.found (startWall k m) ≤ t ∧ t < z.found (stopWall k m m') ∧
        z.found (stopWall k m m') = e := by
  simp only [Seen, windows_oneWindow, List.mem_singleton, exists_eq_left, OpenOn, fromMin_window hm,
    toMin_window hm', declared_window, Set.mem_ofPred_eq, and_assoc]

/-- **What is meant by it.** -/
theorem mem_ends_oneWindow (hm : m < 1440) (hm' : m' < 1440) {meant : ℤ → ℤ} {e : ℤ} :
    e ∈ Ends meant (oneWindow timezone (dayName (d * DAY_MS)) m m') t ↔
      ∃ k, dayName (d * DAY_MS) = dayName (k * DAY_MS) ∧ meant (startWall k m) ≤ t ∧
        t < meant (stopWall k m m') ∧ meant (stopWall k m m') = e := by
  simp only [Ends, windows_oneWindow, List.mem_singleton, exists_eq_left, fromMin_window hm,
    toMin_window hm', declared_window, Set.mem_ofPred_eq]

end OneWindow

/-! ### Where every report is right -/

section Exact

variable {clock : JsString → Zone} {timezone : JsString} {meant : ℤ → ℤ} {schedule : Json}
  {m m' : ℕ} {d k t u e w : ℤ}

/-- **A report that is right** sees the same latest end as is meant. -/
theorem Right.seen (h : Right clock meant schedule t)
    (he : e ∈ Seen (zoneOf clock schedule) schedule t) :
    ∃ e' ∈ Ends meant schedule t, e ≤ e' := by
  have hseen := latest_closesAt clock schedule t
  rw [right_iff] at h
  cases hc : (runnerAvailability clock (some schedule) t).closesAt with
  | none =>
    rw [hc] at hseen
    have hnil : Seen (zoneOf clock schedule) schedule t = ∅ := hseen
    rw [hnil] at he
    exact absurd he (Set.notMem_empty e)
  | some e' =>
    rw [hc] at hseen h
    exact ⟨e', h.1, hseen.2 he⟩

theorem Right.ends (h : Right clock meant schedule t) (he : e ∈ Ends meant schedule t) :
    ∃ e' ∈ Seen (zoneOf clock schedule) schedule t, e ≤ e' := by
  have hseen := latest_closesAt clock schedule t
  rw [right_iff] at h
  cases hc : (runnerAvailability clock (some schedule) t).closesAt with
  | none =>
    rw [hc] at h
    have hnil : Ends meant schedule t = ∅ := h
    rw [hnil] at he
    exact absurd he (Set.notMem_empty e)
  | some e' =>
    rw [hc] at hseen h
    exact ⟨e', hseen.1, h.2 he⟩

/-- **An end that was reported is kept to**: until then something is seen. -/
theorem Right.carry (ht : Right clock meant schedule t) (hu : Right clock meant schedule u)
    (he : e ∈ Seen (zoneOf clock schedule) schedule t) (htu : t ≤ u) (hue : u < e) :
    (Seen (zoneOf clock schedule) schedule u).Nonempty := by
  obtain ⟨e', ⟨win, hwin, d, hdeclared, hstart, -, he'⟩, hle⟩ := ht.seen he
  have hends : e' ∈ Ends meant schedule u :=
    ⟨win, hwin, d, hdeclared, hstart.trans htu, by rw [he']; omega, he'⟩
  obtain ⟨e'', he'', -⟩ := hu.ends hends
  exact ⟨e'', he''⟩

variable (hright : ∀ d : ℤ, ∀ m < 1440, ∀ m' < 1440, m ≠ m' → ∀ t,
  Right clock meant (oneWindow timezone (dayName (d * DAY_MS)) m m') t)

include hright

/-- **The window of one day keeps open**: from an instant at which the source sees it until its end
there is one of its days to look at. -/
theorem looked_of_right (hm : m < 1440) (hm' : m' < 1440) (hdiffer : m ≠ m')
    (hd : d = dayOf (clock timezone) t - 1 ∨ d = dayOf (clock timezone) t)
    (hstart : (clock timezone).found (startWall d m) ≤ t) (htu : t ≤ u)
    (hu : u < (clock timezone).found (stopWall d m m')) :
    ∃ k, (k = dayOf (clock timezone) u - 1 ∨ k = dayOf (clock timezone) u) ∧ d % 7 = k % 7 := by
  have hseen : (clock timezone).found (stopWall d m m') ∈
      Seen (clock timezone) (oneWindow timezone (dayName (d * DAY_MS)) m m') t :=
    (mem_seen_oneWindow hm hm').2 ⟨d, hd, rfl, hstart, htu.trans_lt hu, rfl⟩
  obtain ⟨e, he⟩ := (hright d m hm m' hm' hdiffer t).carry (hright d m hm m' hm' hdiffer u) hseen
    htu hu
  obtain ⟨k, hk, hname, -⟩ := (mem_seen_oneWindow hm hm').1 he
  exact ⟨k, hk, emod_of_dayName hname⟩

/-- **No time is found before a gap that it is in**: a window that ends then would be taken to end
before the gap. -/
theorem denotes_of_right (hmeant : (clock timezone).Interprets meant) (hm : m < 1440) :
    (clock timezone).Denotes (startWall k m) ((clock timezone).found (startWall k m)) := by
  rw [Zone.denotes_found_iff]
  rintro ⟨hkept, hlt⟩
  -- the window of a day less a minute that ends at the time
  obtain ⟨d, n, hn, hdiffer, hstart, hstop⟩ : ∃ d, ∃ n < 1440, n ≠ m ∧
      startWall d n + 1439 * 60000 = startWall k m ∧ stopWall d n m = startWall k m := by
    by_cases hlast : m = 1439
    · refine ⟨k, 0, by omega, by omega, ?_, ?_⟩
      · simp only [startWall, DAY_MS]
        omega
      · simp only [startWall, stopWall, DAY_MS]
        split_ifs <;> omega
    · refine ⟨k - 1, m + 1, by omega, by omega, ?_, ?_⟩
      · simp only [startWall, DAY_MS]
        omega
      · simp only [startWall, stopWall, DAY_MS]
        split_ifs <;> omega
  set z := clock timezone with hz
  set w := startWall k m with hw
  have hfound := Zone.found_of_kept hkept
  have hjump := Zone.off_near (z := z) (Zone.abs_guess_sub (z := z) w)
  rw [abs_le] at hjump
  have hthird : z.off (w - z.off (w - z.off w)) = z.off w := hkept
  -- before the first guess the offset is still that before the gap
  have hbefore (t : ℤ) (h₁ : w - z.off (w - z.off w) ≤ t + 86400000) (h₂ : t ≤ w - z.off w) :
      z.off t = z.off (w - z.off w) := by
    rcases z.once h₂ (by omega) h₁ with h | h
    · exact h.symm
    · omega
  obtain ⟨now, hnow⟩ : ∃ now, now = w - z.off w - 1 := ⟨_, rfl⟩
  have hwallNow : z.wall now = now + z.off (w - z.off w) := by
    rw [Zone.wall, hbefore now (by omega) (by omega)]
  have hday : startWall d n = d * DAY_MS + n * 60000 := rfl
  have hlooked : d = dayOf z now - 1 ∨ d = dayOf z now := by
    have hle : d ≤ dayOf z now := le_dayOf (by simp only [DAY_MS] at hday ⊢; omega)
    have hge : dayOf z now < d + 2 := dayOf_lt (by simp only [DAY_MS] at hday ⊢; omega)
    omega
  have hreadStart : z.wall (startWall d n - z.off (w - z.off w)) = startWall d n := by
    rw [Zone.wall, hbefore (startWall d n - z.off (w - z.off w)) (by omega) (by omega),
      sub_add_cancel]
  have hmeantStart : meant (startWall d n) < now := by
    refine Zone.lt_of_wall_far (z := z) ?_
    rcases hmeant (startWall d n) with h | ⟨h, -⟩
    · rw [h]
      omega
    · exact absurd hreadStart (h _)
  have hskipped : z.Skipped w := Zone.skipped_iff.2 ⟨hkept, hlt.ne⟩
  have hmeantStop : w - z.off w < meant w := by
    have hpast : w < z.wall (meant w) := by
      rcases Zone.denotes_iff.1 (hmeant w) with h | ⟨-, h⟩
      · exact absurd h (hskipped _)
      · exact h
    by_contra hle
    have := hskipped.past (not_lt.1 hle) hpast
    rw [Zone.wall] at this
    omega
  have hends : meant w ∈ Ends meant (oneWindow timezone (dayName (d * DAY_MS)) n m) now := by
    refine (mem_ends_oneWindow hn hm).2 ⟨d, rfl, hmeantStart.le, ?_, by rw [hstop]⟩
    rw [hstop]
    omega
  obtain ⟨e, he, hle⟩ := (hright d n hn m hm hdiffer now).ends hends
  obtain ⟨d', hd', hname, -, -, rfl⟩ := (mem_seen_oneWindow hn hm).1 he
  have hmod := emod_of_dayName hname
  obtain rfl : d' = d := by
    change d' = dayOf z now - 1 ∨ d' = dayOf z now at hd'
    omega
  rw [hstop] at hle
  change meant w ≤ z.found w at hle
  rw [hfound] at hle
  omega

/-- **No day comes back** after a time of it has been found. -/
theorem start_of_right (hmeant : (clock timezone).Interprets meant) (hm : m < 1440)
    (ht : (clock timezone).found (startWall d m) ≤ t) : d ≤ dayOf (clock timezone) t := by
  by_contra hlt
  rw [not_le] at hlt
  -- the window of a day less a minute that begins at the time
  obtain ⟨n, hn, hdiffer, hlong⟩ : ∃ n < 1440, m ≠ n ∧
      startWall d m + 1439 * 60000 = stopWall d m n := by
    refine ⟨(m + 1439) % 1440, by omega, by omega, ?_⟩
    simp only [startWall, stopWall, DAY_MS]
    split_ifs <;> omega
  set z := clock timezone with hz
  have hwall := wall_lt_mul hlt
  have hfound : startWall d m ≤ z.wall (z.found (startWall d m)) :=
    (denotes_of_right hright hmeant hm).le_wall
  have hnear := z.wall_found_near (startWall d m)
  have hback := Zone.wall_le_of_le (z := z) ht
  have hfar := z.wall_found_near (stopWall d m n)
  have hday : startWall d m = d * DAY_MS + m * 60000 := rfl
  simp only [DAY_MS] at hwall hday
  have hlooked : d = dayOf z (z.found (startWall d m)) - 1 ∨
      d = dayOf z (z.found (startWall d m)) := by
    have hle : d ≤ dayOf z (z.found (startWall d m)) := le_dayOf (by simp only [DAY_MS]; omega)
    have hge : dayOf z (z.found (startWall d m)) < d + 2 := dayOf_lt (by simp only [DAY_MS]; omega)
    omega
  have hopen : t < z.found (stopWall d m n) := Zone.lt_of_wall_far (z := z) (by omega)
  obtain ⟨k, hk, hmod⟩ := looked_of_right hright hm hn hdiffer hlooked le_rfl ht hopen
  have hlast : d - 1 ≤ dayOf z t := le_dayOf (by simp only [DAY_MS]; omega)
  change k = dayOf z t - 1 ∨ k = dayOf z t at hk
  omega

/-- **No day is left out** before a time of the day before it is found. -/
theorem stop_of_right (hm : m < 1440) (hm' : m' < 1440) (hdiffer : m ≠ m')
    (ht : t < (clock timezone).found (stopWall d m m')) : dayOf (clock timezone) t ≤ d + 1 := by
  by_contra hlt
  rw [not_le] at hlt
  set z := clock timezone with hz
  have hwall : (d + 2) * DAY_MS ≤ z.wall t := mul_le_wall (by omega)
  have hnear := z.wall_found_near (startWall d m)
  have hfar := z.wall_found_near (stopWall d m m')
  have hback := Zone.wall_le_of_le (z := z) ht.le
  have hday : startWall d m = d * DAY_MS + m * 60000 := rfl
  -- the window crosses midnight, and ends in the second half of the next day
  obtain ⟨hcross, hstop⟩ : m' ≤ m ∧ stopWall d m m' = d * DAY_MS + (m' + 1440) * 60000 := by
    simp only [stopWall, DAY_MS] at hfar hback hwall ⊢
    split_ifs at hfar hback ⊢ <;> omega
  simp only [DAY_MS] at hwall hday hstop
  have hlooked : d = dayOf z (z.found (startWall d m)) - 1 ∨
      d = dayOf z (z.found (startWall d m)) := by
    have hle : d ≤ dayOf z (z.found (startWall d m)) := le_dayOf (by simp only [DAY_MS]; omega)
    have hge : dayOf z (z.found (startWall d m)) < d + 2 := dayOf_lt (by simp only [DAY_MS]; omega)
    omega
  have hopen : z.found (startWall d m) < t := Zone.lt_of_wall_far (z := z) (by omega)
  obtain ⟨k, hk, hmod⟩ := looked_of_right hright hm hm' hdiffer hlooked le_rfl hopen.le ht
  have hlast : dayOf z t < d + 3 := dayOf_lt (by simp only [DAY_MS]; omega)
  change k = dayOf z t - 1 ∨ k = dayOf z t at hk
  omega

/-- **Where every report is right, every window keeps.** -/
theorem keeps_of_right (hmeant : (clock timezone).Interprets meant) (hm : m < 1440)
    (hm' : m' < 1440) (hdiffer : m ≠ m') : Keeps (clock timezone) d m m' := by
  have hstop : ∃ k, stopWall d m m' = startWall k m' := by
    simp only [stopWall, startWall, DAY_MS]
    split_ifs
    · exact ⟨d, rfl⟩
    · exact ⟨d + 1, by omega⟩
  obtain ⟨k, hk⟩ := hstop
  have hfoundStart := denotes_of_right (k := d) hright hmeant hm
  have hfoundStop := denotes_of_right (k := k) hright hmeant hm'
  rw [Zone.denotes_found_iff] at hfoundStart hfoundStop
  refine ⟨fun hkept => ⟨not_lt.1 fun hlt => hfoundStart ⟨hkept, hlt⟩, fun t ht => ?_⟩,
    fun hkept => ⟨?_, fun t ht => ?_⟩⟩
  · refine start_of_right hright hmeant hm ?_
    rw [Zone.found_of_kept hkept]
    exact ht.le
  · rw [hk] at hkept ⊢
    exact not_lt.1 fun hlt => hfoundStop ⟨hkept, hlt⟩
  · refine stop_of_right hright hm hm' hdiffer ?_
    rwa [Zone.found_of_kept hkept]

end Exact

/-! ### Schedules that are accepted -/

section Accepted

variable {host : Host} {schedule win : Json} {c : UInt16}

theorem digit_of_digit? {n : ℕ} (h : digit? c = some n) : c = digit n := by
  unfold digit? at h
  split_ifs at h with hdigit
  have hle := UInt16.le_iff_toNat_le.1 hdigit.1
  simp only [UInt16.reduceToNat] at hle
  obtain rfl := Option.some.inj h
  rw [digit, Nat.add_sub_cancel' hle, UInt16.ofNat_toNat]

/-- **A time is spelled in one way.** -/
theorem eq_timeText {s : JsString} {h m : ℕ} (heq : TIME_RE s = some (h, m)) :
    s = timeText (h * 60 + m) := by
  have hbounds := TIME_RE_bounds heq
  unfold TIME_RE at heq
  split at heq
  · split at heq
    case h_1 h₁ h₂ colon m₁ m₂ _ _ _ _ a b c d ha hb hc hd =>
      split_ifs at heq with hgood
      obtain ⟨rfl, rfl⟩ := Prod.mk.inj (Option.some.inj heq)
      have hb' := digit_le hb
      have hd' := digit_le hd
      have hhour : ((10 * a + b) * 60 + (10 * c + d)) / 60 = 10 * a + b := by omega
      have hminute : ((10 * a + b) * 60 + (10 * c + d)) % 60 = 10 * c + d := by omega
      rw [digit_of_digit? ha, digit_of_digit? hb, digit_of_digit? hc, digit_of_digit? hd, hgood.1,
        timeText, hhour, hminute, show (10 * a + b) / 10 = a by omega,
        show (10 * a + b) % 10 = b by omega, show (10 * c + d) / 10 = c by omega,
        show (10 * c + d) % 10 = d by omega]
    case h_2 => cases heq
  · cases heq

theorem timeProblem_eq_none {place field : JsString} (h : timeProblem host place win field = none) :
    ∃ h m, h < 24 ∧ m < 60 ∧ TIME_RE (win.field field).text = some (h, m) ∧
      (win.field field).text = timeText (h * 60 + m) := by
  unfold timeProblem at h
  simp only at h
  split at h
  · rename_i s hs
    split_ifs at h with hsome
    obtain ⟨⟨hour, minute⟩, heq⟩ := Option.isSome_iff_exists.1 hsome
    rw [hs]
    obtain ⟨hh, hm⟩ := TIME_RE_bounds heq
    exact ⟨hour, minute, hh, hm, heq, eq_timeText heq⟩
  · cases h

/-- **A window that is accepted** begins and ends at different minutes. -/
theorem times_of_accepted {place : JsString} (h : windowProblem host place win = none) :
    ∃ m < 1440, ∃ m' < 1440, m ≠ m' ∧ fromMin win = (m : ℕ) ∧ toMin win = (m' : ℕ) := by
  unfold windowProblem at h
  split at h
  · cases h
  split at h
  · cases h
  · split at h
    · cases h
    · split at h
      · cases h
      simp only [Option.or_eq_none_iff] at h
      obtain ⟨hfrom, hto, hdiffer⟩ := h
      obtain ⟨hour, minute, hh, hm, heq, htext⟩ := timeProblem_eq_none hfrom
      obtain ⟨hour', minute', hh', hm', heq', htext'⟩ := timeProblem_eq_none hto
      split_ifs at hdiffer with hsame
      refine ⟨hour * 60 + minute, by omega, hour' * 60 + minute', by omega, ?_, ?_, ?_⟩
      · intro hequal
        rw [htext, htext', hequal] at hsame
        exact hsame rfl
      · simp only [fromMin, minutesOf, heq]
        push_cast
        rfl
      · simp only [toMin, minutesOf, heq']
        push_cast
        rfl
  · cases h

theorem accepted_of_mem {wins : List Json} {i : ℕ} (h : windowsProblem host i wins = none)
    (hwin : win ∈ wins) : ∃ place, windowProblem host place win = none := by
  induction wins generalizing i with
  | nil => cases hwin
  | cons win' wins ih =>
    rw [windowsProblem, Option.or_eq_none_iff] at h
    rcases List.mem_cons.1 hwin with rfl | hwin
    · exact ⟨_, h.1⟩
    · exact ih h.2 hwin

/-- **What is accepted** has windows that are. -/
theorem windowsProblem_of_accepted (h : scheduleProblem host schedule = none) :
    windowsProblem host 0 (windows schedule) = none := by
  unfold scheduleProblem at h
  split_ifs at h
  split at h
  · split_ifs at h
    unfold windows
    split at h
    · cases h
    · rename_i wins _ havailable
      rw [havailable]
      exact h
    · cases h
  · cases h

end Accepted

/-! ### Right for a zone, and right for a schedule -/

/-- **Where the report is right.**  In a zone it is right for every schedule and at every instant, with
one instant for each time of the clock, just if every window keeps on every day; and in any zone it is
right for each schedule whose windows keep on the days that they start on. -/
theorem runnerAvailability_right_iff (host : Host) {timezone : JsString}
    (hknown : host.known timezone = true) (hne : timezone ≠ []) :
    ((∃ meant, (host.clock timezone).Interprets meant ∧ ∀ schedule,
        schedule.field (js "timezone") = .str timezone → scheduleProblem host schedule = none →
          ∀ now, Right host.clock meant schedule now) ↔
      ∀ (d : ℤ) (m m' : ℕ), m < 1440 → m' < 1440 → m ≠ m' → Keeps (host.clock timezone) d m m') ∧
    ∀ schedule, schedule.field (js "timezone") = .str timezone →
      scheduleProblem host schedule = none →
      (∀ win ∈ windows schedule, ∀ d, Declared win d →
        Keeps (host.clock timezone) d (fromMin win) (toMin win)) →
      ∃ meant, (host.clock timezone).Interprets meant ∧
        ∀ now, Right host.clock meant schedule now := by
  have hzone (schedule : Json) (h : schedule.field (js "timezone") = .str timezone) :
      zoneOf host.clock schedule = host.clock timezone := by rw [zoneOf, h, Json.text]
  refine ⟨⟨?_, fun hkeeps => ?_⟩, fun schedule htimezone _ hkeeps => ?_⟩
  · rintro ⟨meant, hmeant, hright⟩ d m m' hm hm' hdiffer
    refine keeps_of_right (fun k n hn n' hn' hne' => ?_) hmeant hm hm' hdiffer
    exact hright _ timezone_oneWindow
      (scheduleProblem_oneWindow hknown hne (dayName_mem k) hn hn' hne')
  · refine ⟨foundOrAny (host.clock timezone), interprets_foundOrAny _,
      fun schedule htimezone haccepted now => ?_⟩
    have hall := @right_of_keeps host.clock schedule (fun win hwin d _ => ?_) now
    · rwa [hzone schedule htimezone] at hall
    · obtain ⟨place, hplace⟩ := accepted_of_mem (windowsProblem_of_accepted haccepted) hwin
      obtain ⟨m, hm, m', hm', hdiffer, hfrom, hto⟩ := times_of_accepted hplace
      rw [hzone schedule htimezone, hfrom, hto]
      exact hkeeps d m m' hm hm' hdiffer
  · refine ⟨foundOrAny (host.clock timezone), interprets_foundOrAny _, fun now => ?_⟩
    rw [← hzone schedule htimezone] at hkeeps ⊢
    exact right_of_keeps hkeeps now

/-- A clock that is five hours behind, and in 2026 four from 07:00 on the 8th of March until 06:00 on
the 1st of November. -/
def newYork : Zone where
  off t := if 1772953200000 ≤ t ∧ t < 1793512800000 then -14400000 else -18000000
  whole t := by split_ifs <;> decide
  bound t := by split_ifs <;> decide
  jump _ _ := by split_ifs <;> decide
  once _ _ _ := by split_ifs <;> omega

/-- A clock that is an hour ahead, and from 01:00 on the 29th of March 2026 two hours. -/
def spring : Zone where
  off t := if t < 1774746000000 then 3600000 else 7200000
  whole t := by split_ifs <;> decide
  bound t := by split_ifs <;> decide
  jump _ _ := by split_ifs <;> decide
  once _ _ _ := by split_ifs <;> omega

/-- Two zones. -/
def twoZones : Host where
  known timezone := timezone = js "America/New_York" ∨ timezone = js "Europe/Berlin"
  clock timezone := if timezone = js "America/New_York" then newYork else spring
  stringify _ := []

theorem runnerAvailability_right_newYork :
    ∃ meant, newYork.Interprets meant ∧ ∀ schedule,
      schedule.field (js "timezone") = .str (js "America/New_York") →
        scheduleProblem twoZones schedule = none →
          ∀ now, Right twoZones.clock meant schedule now := by
  have hright := @runnerAvailability_right_iff twoZones (js "America/New_York") (by decide) (by decide)
  refine hright.1.2 fun d m m' hm hm' _ => ?_
  have hclock : twoZones.clock (js "America/New_York") = newYork := rfl
  have hoff (t : ℤ) : newYork.off t =
      if 1772953200000 ≤ t ∧ t < 1793512800000 then -14400000 else -18000000 := rfl
  rw [hclock]
  constructor
  · -- a gap counts with the offset before it, and a day begins hours before its change
    intro hkept
    rw [Zone.Kept] at hkept
    refine ⟨?_, fun t ht => le_dayOf ?_⟩
    · generalize startWall d m = w at hkept ⊢
      simp only [hoff] at hkept ⊢
      split_ifs at hkept ⊢ <;> omega
    · have hd : d * 86400000 ≤ startWall d m := by rw [startWall, DAY_MS]; omega
      generalize startWall d m = w at ht hd
      rw [Zone.wall]
      simp only [hoff, DAY_MS] at ht ⊢
      split_ifs at ht ⊢ <;> omega
  · intro hkept
    rw [Zone.Kept] at hkept
    refine ⟨?_, fun t ht => ?_⟩
    · generalize stopWall d m m' = w at hkept ⊢
      simp only [hoff] at hkept ⊢
      split_ifs at hkept ⊢ <;> omega
    · have hd : stopWall d m m' < (d + 2) * 86400000 := by
        rw [stopWall, DAY_MS]
        split_ifs <;> omega
      generalize stopWall d m m' = w at ht hd
      have hlt : dayOf newYork t < d + 2 := dayOf_lt (by
        rw [Zone.wall]
        simp only [hoff, DAY_MS] at ht ⊢
        split_ifs at ht ⊢ <;> omega)
      omega

/-- Sundays from midnight until half past two. -/
def untilHalfPastTwo : Json := oneWindow (js "Europe/Berlin") (js "sun") 0 150

/-- **A window that ends in the gap is closed before it.**  At a quarter to one, a quarter to two on
the clock, the runner is reported to be off, and by no instant from the end of the gap on for half
past two is it. -/
theorem closed_before_gap :
    scheduleProblem twoZones untilHalfPastTwo = none ∧
      zoneOf twoZones.clock untilHalfPastTwo = spring ∧
      ¬ ∃ meant, spring.Interprets meant ∧
        Right twoZones.clock meant untilHalfPastTwo 1774745100000 := by
  have hday : js "sun" = dayName (20541 * DAY_MS) := by decide
  refine ⟨scheduleProblem_oneWindow (by decide) (by decide) (by decide) (by decide) (by decide)
    (by decide), rfl, ?_⟩
  rintro ⟨meant, hmeant, hright⟩
  have hwall (t : ℤ) : spring.wall t = t + if t < 1774746000000 then 3600000 else 7200000 := rfl
  have hstartWall : startWall 20541 (0 : ℕ) = 1774742400000 := by decide
  have hstopWall : stopWall 20541 (0 : ℕ) (150 : ℕ) = 1774751400000 := by decide
  have hstart : meant 1774742400000 ≤ 1774745100000 := by
    rcases hmeant 1774742400000 with h | ⟨h, -⟩
    · rw [hwall] at h
      split_ifs at h <;> omega
    · exact absurd (by decide) (h 1774738800000)
  have hstop : 1774745100000 < meant 1774751400000 := by
    have h := (hmeant 1774751400000).le_wall
    rw [hwall] at h
    split_ifs at h <;> omega
  have hends : meant 1774751400000 ∈ Ends meant untilHalfPastTwo 1774745100000 := by
    rw [untilHalfPastTwo, hday, mem_ends_oneWindow (by decide) (by decide)]
    refine ⟨20541, rfl, ?_, ?_, ?_⟩
    · rwa [hstartWall]
    · rwa [hstopWall]
    · rw [hstopWall]
  have hclosed : (runnerAvailability twoZones.clock (some untilHalfPastTwo) 1774745100000).available =
      false := by decide +kernel
  rw [hright.1.2 ⟨_, hends⟩] at hclosed
  cases hclosed

end Schedule
end Client
end LaneBroker
