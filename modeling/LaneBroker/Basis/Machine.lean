/-
# Machines, runs and invariants

A machine is a set of start states and a partial next-state function of a state and a label:
the label says which party moves and what the outside world answers, and a step that the
machine does not allow is `none`.  Two things are wanted of it again and again: what holds in
every state a run reaches, when every step of the run meets a side condition
(`Machine.Reach`, `Machine.Reach.invariant`), and where one given list of labels leads
(`Machine.exec`, `Machine.reach_of_exec`), for a run that is written out.
-/

import Mathlib.Data.Option.Basic
import Mathlib.Order.Basic

namespace LaneBroker
namespace Basis

/-- **A machine**: start states and a partial next-state function. -/
structure Machine (σ ι : Type) where
  /-- The states a run may start in. -/
  start : σ → Prop
  /-- The state after the labelled step, `none` where the step is not possible. -/
  next : σ → ι → Option σ

namespace Machine

variable {σ ι : Type} {M : Machine σ ι} {ok ok' : σ → ι → Prop} {P : σ → Prop}

/-- **The states of the runs whose every step meets `ok`**, a condition on the state before
the step and the label. -/
inductive Reach (M : Machine σ ι) (ok : σ → ι → Prop) : σ → Prop
  | start {s : σ} : M.start s → Reach M ok s
  | step {s s' : σ} {a : ι} : Reach M ok s → ok s a → M.next s a = some s' → Reach M ok s'

/-- **The invariant rule.**  What holds at the start and is kept by every step that meets the
side condition holds in every state reached. -/
theorem Reach.invariant (h₀ : ∀ s, M.start s → P s)
    (hstep : ∀ s a s', P s → ok s a → M.next s a = some s' → P s') {s : σ}
    (h : M.Reach ok s) : P s := by
  induction h with
  | start hs => exact h₀ _ hs
  | step _ hok hnext ih => exact hstep _ _ _ ih hok hnext

/-- A weaker side condition allows more runs. -/
theorem Reach.mono (hle : ∀ s a, ok s a → ok' s a) {s : σ} (h : M.Reach ok s) :
    M.Reach ok' s := by
  induction h with
  | start hs => exact .start hs
  | step _ hok hnext ih => exact .step ih (hle _ _ hok) hnext

/-- **Where a given list of labels leads**, `none` if one of them is not possible. -/
def exec (M : Machine σ ι) : σ → List ι → Option σ
  | s, [] => some s
  | s, a :: as => (M.next s a).bind fun s' => M.exec s' as

theorem exec_cons {s s' : σ} {a : ι} (as : List ι) (h : M.next s a = some s') :
    M.exec s (a :: as) = M.exec s' as := by
  rw [exec, h, Option.bind_some]

/-- The side condition along a given list of labels. -/
def Along (M : Machine σ ι) (ok : σ → ι → Prop) : σ → List ι → Prop
  | _, [] => True
  | s, a :: as => ok s a ∧ ∀ s', M.next s a = some s' → M.Along ok s' as

/-- A list of labels that runs from a reached state, each step meeting the side condition, ends
in a reached state. -/
theorem reach_of_exec (as : List ι) {s s' : σ} (hs : M.Reach ok s) (hok : M.Along ok s as)
    (h : M.exec s as = some s') : M.Reach ok s' := by
  induction as generalizing s with
  | nil => exact Option.some.inj h ▸ hs
  | cons a as ih =>
    obtain ⟨t, ht, hts⟩ := Option.bind_eq_some_iff.1 h
    exact ih (.step hs hok.1 ht) (hok.2 t ht) hts

theorem along_of_forall (h : ∀ s a, ok s a) (as : List ι) (s : σ) : M.Along ok s as := by
  induction as generalizing s with
  | nil => trivial
  | cons a as ih => exact ⟨h s a, fun s' _ => ih s'⟩

/-- A check of a side condition along a given list of labels. -/
def check (M : Machine σ ι) (ok : σ → ι → Bool) : σ → List ι → Bool
  | _, [] => true
  | s, a :: as => ok s a && (M.next s a).all fun s' => M.check ok s' as

/-- **A check that passes shows the side condition.** -/
theorem along_of_check (okay : σ → ι → Bool) (h : ∀ s a, okay s a = true → ok s a) (as : List ι)
    {s : σ} (hs : M.check okay s as = true) : M.Along ok s as := by
  induction as generalizing s with
  | nil => trivial
  | cons a as ih =>
    obtain ⟨hokay, hnext⟩ := Bool.and_eq_true_iff.1 hs
    exact ⟨h s a hokay, fun s' hs' => ih (by simpa [hs'] using hnext)⟩

/-- **A run that is written out**: it is allowed, and what is asked of its end holds. -/
theorem exists_reach_of_exec (M : Machine σ ι) (s : σ) (as : List ι) (p : σ → Bool)
    (hs : M.start s) (hok : M.Along ok s as) (h : (M.exec s as).any p = true) :
    ∃ s', M.Reach ok s' ∧ p s' = true := by
  obtain ⟨s', hs', hp⟩ := (Option.any_eq_true _ _).1 h
  exact ⟨s', reach_of_exec as (.start hs) hok hs', hp⟩

/-- A side condition on the labels alone holds along a list when it holds of each label. -/
theorem along_of_labels {Q : ι → Prop} {as : List ι} (h : ∀ a ∈ as, Q a) (s : σ) :
    M.Along (fun _ a => Q a) s as := by
  induction as generalizing s with
  | nil => trivial
  | cons a as ih =>
    exact ⟨h a (List.mem_cons_self ..), fun s' _ =>
      ih (fun b hb => h b (List.mem_cons_of_mem _ hb)) s'⟩

/-- **Nothing more can happen.** -/
def Stuck (M : Machine σ ι) (s : σ) : Prop := ∀ a, M.next s a = none

/-- **Every run comes to an end**, where each step goes down in an order that ends. -/
theorem exists_stuck {r : σ → σ → Prop} (hwf : WellFounded r)
    (hdown : ∀ s a s', M.next s a = some s' → r s' s) (s : σ) :
    ∃ as s', M.exec s as = some s' ∧ M.Stuck s' := by
  induction s using hwf.induction with
  | _ s ih =>
    by_cases hstuck : M.Stuck s
    · exact ⟨[], s, rfl, hstuck⟩
    · obtain ⟨a, ha⟩ := not_forall.1 hstuck
      obtain ⟨t, ht⟩ := Option.ne_none_iff_exists'.1 ha
      obtain ⟨as, s', has, hs'⟩ := ih t (hdown s a t ht)
      exact ⟨a :: as, s', by rw [exec_cons as ht, has], hs'⟩

end Machine
end Basis
end LaneBroker
