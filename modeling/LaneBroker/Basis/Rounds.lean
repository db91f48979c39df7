/-
# A set that grows in rounds

A loop that goes over its candidates again and again, and puts each one for which a rule speaks into
a set, until a round puts in nothing.  A candidate that is put in counts at once, for those after it
in the same round.  If the rule only speaks the more, the more there is, then the loop ends
(`grow_closed`), and what it ends with is the least set that holds what it began with and
everything the rule speaks for: nothing is in it but for a reason (`grow_induction`).
-/

import Mathlib.Data.List.Basic
import Mathlib.Data.List.Sublists

namespace LaneBroker
namespace Basis
namespace Rounds

variable {α : Type} [DecidableEq α] (rule : List α → α → Bool)

/-- A candidate is put in. -/
def step (known : List α) (x : α) : List α :=
  if x ∈ known then known else if rule known x then x :: known else known

/-- **One round.** -/
def round (candidates known : List α) : List α := candidates.foldl (step rule) known

/-- **Rounds until nothing is put in**, up to a number of them. -/
def grow (candidates : List α) : ℕ → List α → List α
  | 0, known => known
  | fuel + 1, known =>
    let after := round rule candidates known
    if after.length = known.length then after else grow candidates fuel after

/-- The rule speaks the more, the more there is. -/
def Monotone : Prop := ∀ known known' x, known ⊆ known' → rule known x = true → rule known' x = true

variable {rule} {candidates known : List α} {x : α}

theorem suffix_step (known : List α) (x : α) : known <:+ step rule known x := by
  unfold step
  split_ifs
  · exact List.suffix_rfl
  · exact List.suffix_cons x known
  · exact List.suffix_rfl

theorem suffix_round (candidates known : List α) : known <:+ round rule candidates known := by
  induction candidates generalizing known with
  | nil => exact List.suffix_rfl
  | cons x candidates ih => exact (suffix_step known x).trans (ih (step rule known x))

theorem suffix_grow (fuel : ℕ) (candidates known : List α) :
    known <:+ grow rule candidates fuel known := by
  induction fuel generalizing known with
  | zero => exact List.suffix_rfl
  | succ fuel ih =>
    unfold grow
    simp only
    split_ifs
    · exact suffix_round candidates known
    · exact (suffix_round candidates known).trans (ih _)

theorem mem_step_self (h : rule known x = true) : x ∈ step rule known x := by
  unfold step
  split_ifs with hmem
  · exact hmem
  · exact List.mem_cons_self

/-- **What the rule speaks for at the start of a round is in at its end.** -/
theorem mem_round (hmono : Monotone rule) (hx : x ∈ candidates) (h : rule known x = true) :
    x ∈ round rule candidates known := by
  induction candidates generalizing known with
  | nil => cases hx
  | cons y candidates ih =>
    show x ∈ round rule candidates (step rule known y)
    rcases List.mem_cons.1 hx with rfl | hx
    · exact (suffix_round candidates _).subset (mem_step_self h)
    · exact ih hx (hmono _ _ _ (suffix_step known y).subset h)

/-! ### Nothing without a reason -/

section Induction

variable {P : α → Prop}
  (hrule : ∀ known x, (∀ y ∈ known, P y) → x ∈ candidates → rule known x = true → P x)

include hrule

theorem step_induction (hknown : ∀ y ∈ known, P y) (hx : x ∈ candidates) :
    ∀ y ∈ step rule known x, P y := by
  unfold step
  split_ifs with hmem hspeaks
  · exact hknown
  · exact List.forall_mem_cons.2 ⟨hrule known x hknown hx hspeaks, hknown⟩
  · exact hknown

theorem round_induction {visited : List α} (hvisited : visited ⊆ candidates)
    (hknown : ∀ y ∈ known, P y) : ∀ y ∈ round rule visited known, P y := by
  induction visited generalizing known with
  | nil => exact hknown
  | cons x visited ih =>
    rw [List.cons_subset] at hvisited
    exact ih hvisited.2 (step_induction hrule hknown hvisited.1)

/-- **What the rule keeps is true of all that is put in.** -/
theorem grow_induction (fuel : ℕ) (hknown : ∀ y ∈ known, P y) :
    ∀ y ∈ grow rule candidates fuel known, P y := by
  induction fuel generalizing known with
  | zero => exact hknown
  | succ fuel ih =>
    have hround := round_induction hrule (List.Subset.refl _) hknown
    unfold grow
    simp only
    split_ifs
    · exact hround
    · exact ih hround

end Induction

/-! ### Enough rounds -/

/-- What is not in yet. -/
def pending (candidates known : List α) : List α := candidates.filter (· ∉ known)

/-- A round that puts in nothing new changes nothing. -/
theorem round_eq_self (h : round rule candidates known ⊆ known) :
    round rule candidates known = known := by
  induction candidates generalizing known with
  | nil => rfl
  | cons x candidates ih =>
    have hstep : step rule known x = known := by
      have hsub := (@suffix_round α _ rule candidates (step rule known x)).subset
      have hx : x ∈ step rule known x → x ∈ known := fun hx => h (hsub hx)
      unfold step at hx ⊢
      split_ifs at hx ⊢ with hmem hspeaks
      · rfl
      · exact absurd (hx List.mem_cons_self) hmem
      · rfl
    have hrest : round rule (x :: candidates) known = round rule candidates known := by
      show round rule candidates (step rule known x) = _
      rw [hstep]
    rw [hrest] at h ⊢
    exact ih h

/-- **A round that puts something in leaves less to put in.** -/
theorem pending_round_lt (h : (round rule candidates known).length ≠ known.length) :
    (pending candidates (round rule candidates known)).length <
      (pending candidates known).length := by
  have hsuffix := @suffix_round α _ rule candidates known
  have hsub : (pending candidates (round rule candidates known)).Sublist
      (pending candidates known) :=
    List.monotone_filter_right _ fun y hy => by
      simp only [decide_eq_true_eq] at hy ⊢
      exact fun hmem => hy (hsuffix.subset hmem)
  refine lt_of_le_of_ne hsub.length_le fun heq => h (congrArg List.length (round_eq_self ?_))
  -- all that is put in is a candidate, and as many are pending as before
  intro y hy
  by_contra hnew
  have hcandidate : y ∈ known ∨ y ∈ candidates :=
    round_induction (P := fun y => y ∈ known ∨ y ∈ candidates) (fun _ _ _ hx _ => .inr hx)
      (List.Subset.refl candidates) (fun _ hy => .inl hy) y hy
  have hpending : y ∈ pending candidates known :=
    List.mem_filter.2 ⟨hcandidate.resolve_left hnew, decide_eq_true hnew⟩
  rw [← hsub.eq_of_length heq] at hpending
  exact of_decide_eq_true (List.mem_filter.1 hpending).2 hy

/-- **The loop ends**, and then the rule speaks for nothing more. -/
theorem grow_closed (hmono : Monotone rule) {fuel : ℕ}
    (hfuel : (pending candidates known).length < fuel) (hx : x ∈ candidates)
    (h : rule (grow rule candidates fuel known) x = true) :
    x ∈ grow rule candidates fuel known := by
  induction fuel generalizing known with
  | zero => omega
  | succ fuel ih =>
    unfold grow at h ⊢
    simp only at h ⊢
    split_ifs at h ⊢ with hsame
    · have hround := (@suffix_round α _ rule candidates known).eq_of_length hsame.symm
      rw [← hround] at h
      exact mem_round hmono hx h
    · have hless := pending_round_lt hsame
      exact ih (by omega) h

end Rounds
end Basis
end LaneBroker
