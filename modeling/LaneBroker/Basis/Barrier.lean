/-
# Lists with barriers

A list some places of which are barriers (`none`) that nothing may cross.  What stands between two
barriers is a run, and the list is told by its runs (`runs`).  A loop that collects a run and lets
it out, changed, at the next barrier changes every run and nothing else (`runs_mapRuns`); two lists
of the same runs up to the order in each run are permutations of one another in which nothing has
crossed a barrier (`SameRuns`).  What stands ahead of every barrier is the first run.
-/

import Mathlib.Data.List.Forall2
import Mathlib.Data.List.Perm.Basic
import Mathlib.Data.List.ReduceOption

namespace LaneBroker
namespace Basis
namespace Barrier

variable {α : Type}

/-- **The runs between the barriers**: one more than there are barriers. -/
def runs : List (Option α) → List (List α)
  | [] => [[]]
  | none :: l => [] :: runs l
  | some a :: l =>
    match runs l with
    | [] => [[a]]
    | run :: rest => (a :: run) :: rest

/-- What stands ahead of every barrier. -/
def firstRun : List (Option α) → List α
  | some a :: l => a :: firstRun l
  | _ => []

/-- **A loop over a list with barriers**: a run is collected, and goes through `f` at its end. -/
def mapRuns (f : List α → List α) : List α → List (Option α) → List (Option α)
  | run, [] => (f run).map some
  | run, none :: l => (f run).map some ++ none :: mapRuns f [] l
  | run, some a :: l => mapRuns f (run ++ [a]) l

/-- **The same up to the order in each run**: nothing crosses a barrier. -/
def SameRuns (l l' : List (Option α)) : Prop := List.Forall₂ List.Perm (runs l) (runs l')

/-! ### The runs -/

theorem runs_eq_cons (l : List (Option α)) : ∃ rest, runs l = firstRun l :: rest := by
  induction l with
  | nil => exact ⟨[], rfl⟩
  | cons x l ih =>
    obtain ⟨rest, h⟩ := ih
    cases x with
    | none => exact ⟨runs l, rfl⟩
    | some a => exact ⟨rest, by simp only [runs, h, firstRun]⟩

theorem runs_cons_some {l : List (Option α)} {run : List α} {rest : List (List α)} (a : α)
    (h : runs l = run :: rest) : runs (some a :: l) = (a :: run) :: rest := by
  simp only [runs, h]

@[simp] theorem runs_map_some (run : List α) : runs (run.map some) = [run] := by
  induction run with
  | nil => rfl
  | cons a run ih => rw [List.map_cons, runs_cons_some a ih]

@[simp] theorem runs_append_none (run : List α) (l : List (Option α)) :
    runs (run.map some ++ none :: l) = run :: runs l := by
  induction run with
  | nil => rfl
  | cons a run ih => rw [List.map_cons, List.cons_append, runs_cons_some a ih]

/-- **The loop changes every run, and nothing else.** -/
theorem runs_mapRuns (f : List α → List α) (run : List α) (l : List (Option α)) :
    runs (mapRuns f run l) = (runs (run.map some ++ l)).map f := by
  induction l generalizing run with
  | nil => simp [mapRuns]
  | cons x l ih =>
    cases x with
    | none =>
      rw [mapRuns, runs_append_none, runs_append_none, ih, List.map_nil, List.nil_append,
        List.map_cons]
    | some a =>
      rw [mapRuns, ih, List.map_append, List.append_assoc, List.map_singleton,
        List.singleton_append]

/-- A loop over changed elements changes the runs alike. -/
theorem mapRuns_map {β : Type} {f : List α → List α} {g : List β → List β} {h : α → β}
    (hfg : ∀ run, g (run.map h) = (f run).map h) (run : List α) (l : List (Option α)) :
    mapRuns g (run.map h) (l.map (Option.map h)) = (mapRuns f run l).map (Option.map h) := by
  induction l generalizing run with
  | nil => simp [mapRuns, hfg]
  | cons x l ih =>
    cases x with
    | none =>
      have hnil := ih []
      rw [List.map_nil] at hnil
      simp [mapRuns, hfg, hnil]
    | some a =>
      have hrun := ih (run ++ [a])
      rw [List.map_append, List.map_singleton] at hrun
      simpa [mapRuns] using hrun

/-- The list that the runs make. -/
def join : List (List α) → List (Option α)
  | [] => []
  | [run] => run.map some
  | run :: run' :: rest => run.map some ++ none :: join (run' :: rest)

/-- **A list is told by its runs.** -/
theorem join_runs (l : List (Option α)) : join (runs l) = l := by
  induction l with
  | nil => rfl
  | cons x l ih =>
    obtain ⟨rest, h⟩ := runs_eq_cons l
    rw [h] at ih
    cases x with
    | none => rw [runs, h, join, ih, List.map_nil, List.nil_append]
    | some a =>
      rw [runs_cons_some a h]
      cases rest with
      | nil | cons run rest => exact congrArg (some a :: ·) ih

/-! ### The same runs -/

@[refl] theorem SameRuns.refl (l : List (Option α)) : SameRuns l l :=
  List.forall₂_same.2 fun run _ => List.Perm.refl run

theorem SameRuns.trans {l l' l'' : List (Option α)} (h : SameRuns l l') (h' : SameRuns l' l'') :
    SameRuns l l'' := by
  unfold SameRuns at h h' ⊢
  rw [List.forall₂_iff_get] at h h' ⊢
  refine ⟨h.1.trans h'.1, fun i hi hi'' => ?_⟩
  have hi' : i < (runs l').length := h.1 ▸ hi
  exact (h.2 i hi hi').trans (h'.2 i hi' hi'')

theorem perm_join {rs rs' : List (List α)} (h : List.Forall₂ List.Perm rs rs') :
    (join rs).Perm (join rs') := by
  induction h with
  | nil => exact .refl _
  | @cons run run' rest rest' hrun hrest ih =>
    cases hrest with
    | nil => exact hrun.map some
    | cons hnext htail => exact (hrun.map some).append (ih.cons none)

/-- **A permutation**, of the list with its barriers. -/
theorem SameRuns.perm {l l' : List (Option α)} (h : SameRuns l l') : l.Perm l' := by
  have hjoin := perm_join h
  rwa [join_runs, join_runs] at hjoin

theorem sameRuns_mapRuns {f : List α → List α} (h : ∀ run, (f run).Perm run)
    (l : List (Option α)) : SameRuns l (mapRuns f [] l) := by
  unfold SameRuns
  rw [runs_mapRuns, List.map_nil, List.nil_append, List.forall₂_map_right_iff]
  exact List.forall₂_same.2 fun run _ => (h run).symm

/-- **An element ahead of every barrier may go to the front.** -/
theorem sameRuns_front {pre post : List (Option α)} {a : α} (h : none ∉ pre) :
    SameRuns (pre ++ some a :: post) (some a :: (pre ++ post)) := by
  induction pre with
  | nil => exact .refl _
  | cons x pre ih =>
    obtain ⟨hx, hpre⟩ := List.ne_and_not_mem_of_not_mem_cons h
    obtain ⟨b, rfl⟩ := Option.ne_none_iff_exists'.1 (Ne.symm hx)
    have hsame := ih hpre
    obtain ⟨rest, hruns⟩ := runs_eq_cons (pre ++ some a :: post)
    obtain ⟨rest', hruns'⟩ := runs_eq_cons (pre ++ post)
    unfold SameRuns at hsame ⊢
    rw [hruns, runs_cons_some a hruns'] at hsame
    rw [List.cons_append, List.cons_append, runs_cons_some b hruns,
      runs_cons_some a (runs_cons_some b hruns')]
    cases hsame with
    | cons hfirst hrest => exact .cons ((hfirst.cons b).trans (.swap a b _)) hrest

/-! ### The first run -/

theorem SameRuns.firstRun_perm {l l' : List (Option α)} (h : SameRuns l l') :
    (firstRun l).Perm (firstRun l') := by
  obtain ⟨rest, hl⟩ := runs_eq_cons l
  obtain ⟨rest', hl'⟩ := runs_eq_cons l'
  unfold SameRuns at h
  rw [hl, hl'] at h
  cases h with
  | cons hfirst _ => exact hfirst

theorem mem_firstRun_iff {l : List (Option α)} {a : α} :
    a ∈ firstRun l ↔ ∃ pre post, l = pre ++ some a :: post ∧ none ∉ pre := by
  constructor
  · intro h
    induction l with
    | nil => cases h
    | cons x l ih =>
      rcases x with _ | b
      · cases h
      · rcases List.mem_cons.1 h with rfl | h
        · exact ⟨[], l, rfl, List.not_mem_nil⟩
        · obtain ⟨pre, post, rfl, hpre⟩ := ih h
          exact ⟨some b :: pre, post, rfl, by simp [hpre]⟩
  · rintro ⟨pre, post, rfl, hpre⟩
    induction pre with
    | nil => exact List.mem_cons_self
    | cons x pre ih =>
      obtain ⟨hx, hrest⟩ := List.ne_and_not_mem_of_not_mem_cons hpre
      obtain ⟨b, rfl⟩ := Option.ne_none_iff_exists'.1 (Ne.symm hx)
      exact List.mem_cons_of_mem b (ih hrest)

/-- A filter that lets every barrier stand. -/
theorem firstRun_filter (p : Option α → Bool) (hp : p none = true) (l : List (Option α)) :
    firstRun (l.filter p) = (firstRun l).filter fun a => p (some a) := by
  induction l with
  | nil => rfl
  | cons x l ih =>
    cases x with
    | none => rw [List.filter_cons_of_pos hp]; rfl
    | some a =>
      by_cases h : p (some a) = true
      · simp only [List.filter_cons_of_pos h, firstRun, ih, h, List.filter_cons, if_true]
      · simp only [List.filter_cons_of_neg h, firstRun, ih, h, List.filter_cons, if_false,
          Bool.false_eq_true]

theorem mem_of_mem_firstRun {l : List (Option α)} {a : α} (h : a ∈ firstRun l) : some a ∈ l := by
  obtain ⟨pre, post, rfl, -⟩ := mem_firstRun_iff.1 h
  exact List.mem_append_right _ List.mem_cons_self

/-! ### The order of what is no barrier -/

/-- **Runs put in order one by one.**  What stood in one run comes out in the order of the runs,
what stood in two as it did. -/
theorem pairwise_mapRuns {f : List α → List α} {R S : α → α → Prop} (hperm : ∀ run, (f run).Perm run)
    (hf : ∀ run, (f run).Pairwise R) {run : List α} {l : List (Option α)}
    (h : (run ++ l.reduceOption).Pairwise S) :
    (mapRuns f run l).reduceOption.Pairwise fun a b => R a b ∨ S a b := by
  have hrun : ∀ run : List α, (run.map some).reduceOption = run := fun run => by
    induction run with
    | nil => rfl
    | cons a run ih => rw [List.map_cons, List.reduceOption_cons_of_some, ih]
  induction l generalizing run with
  | nil =>
    rw [mapRuns, hrun]
    exact (hf run).imp .inl
  | cons x l ih =>
    cases x with
    | none =>
      rw [List.reduceOption_cons_of_none, List.pairwise_append] at h
      rw [mapRuns, List.reduceOption_append, List.reduceOption_cons_of_none, hrun,
        List.pairwise_append]
      refine ⟨(hf run).imp .inl, ih h.2.1, fun a ha b hb => .inr ?_⟩
      have hb' : b ∈ l.reduceOption := by
        rw [List.reduceOption_mem_iff] at hb ⊢
        exact (sameRuns_mapRuns hperm l).perm.mem_iff.2 hb
      exact h.2.2 a ((hperm run).mem_iff.1 ha) b hb'
    | some a =>
      rw [mapRuns]
      refine ih ?_
      rwa [List.reduceOption_cons_of_some, List.append_cons] at h

end Barrier
end Basis
end LaneBroker
