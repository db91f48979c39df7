/-
# Computations that may fail

What a computation with errors did when it did not fail: the rules for a sequence, a loop over a
list that makes a list, and a loop that carries a state.
-/

import Mathlib.Data.List.Forall2

namespace LaneBroker
namespace Basis
namespace Results

variable {ε α β σ : Type}

theorem bind_ok {x : Except ε α} {f : α → Except ε β} {b : β} (h : x >>= f = .ok b) :
    ∃ a, x = .ok a ∧ f a = .ok b := by
  cases x with
  | error e => cases h
  | ok a => exact ⟨a, rfl, h⟩

theorem map_ok {x : Except ε α} {f : α → β} {b : β} (h : x.map f = .ok b) :
    ∃ a, x = .ok a ∧ f a = b := by
  cases x with
  | error e => cases h
  | ok a => exact ⟨a, rfl, Except.ok.inj h⟩

/-- A check that is made of each element. -/
theorem forM_ok_iff {f : α → Except ε Unit} {xs : List α} :
    xs.forM f = .ok () ↔ ∀ x ∈ xs, f x = .ok () := by
  induction xs with
  | nil => exact ⟨fun _ => nofun, fun _ => rfl⟩
  | cons x xs ih =>
    rw [List.forall_mem_cons, ← ih]
    constructor
    · intro h
      obtain ⟨⟨⟩, hx, hxs⟩ := bind_ok (show (f x >>= fun _ => xs.forM f) = .ok () from h)
      exact ⟨hx, hxs⟩
    · rintro ⟨hx, hxs⟩
      show (f x >>= fun _ => xs.forM f) = .ok ()
      rw [hx]
      exact hxs

/-- **A list is made of what each element gives.** -/
theorem mapM_ok {f : α → Except ε β} {g : α → β} (hf : ∀ x y, f x = .ok y → y = g x)
    {xs : List α} {ys : List β} (h : xs.mapM f = .ok ys) :
    ys = xs.map g ∧ ∀ x ∈ xs, f x = .ok (g x) := by
  induction xs generalizing ys with
  | nil => exact ⟨(Except.ok.inj h).symm, nofun⟩
  | cons x xs ih =>
    rw [List.mapM_cons] at h
    obtain ⟨y, hy, h⟩ := bind_ok h
    obtain ⟨ys, hys, h⟩ := bind_ok h
    obtain ⟨hxs, hall⟩ := ih hys
    have hgy := hf x y hy
    rw [← Except.ok.inj h, hxs, List.map_cons, hgy]
    exact ⟨rfl, List.forall_mem_cons.2 ⟨hgy ▸ hy, hall⟩⟩

theorem mapM_eq_ok {f : α → Except ε β} {g : α → β} {xs : List α}
    (hf : ∀ x ∈ xs, f x = .ok (g x)) : xs.mapM f = .ok (xs.map g) := by
  induction xs with
  | nil => rfl
  | cons x xs ih =>
    obtain ⟨hx, hxs⟩ := List.forall_mem_cons.1 hf
    rw [List.mapM_cons, hx, ih hxs]
    rfl

/-- **The loop rule.**  What holds of the elements done and the state, at the start with none done
and after each round that does not fail, holds at the end. -/
theorem foldlM_ok {I : List α → σ → Prop} {f : σ → α → Except ε σ} {xs : List α} {s s' : σ}
    (hstart : I [] s)
    (hstep : ∀ done x rest s s', xs = done ++ x :: rest → I done s → f s x = .ok s' →
      I (done ++ [x]) s')
    (h : xs.foldlM f s = .ok s') : I xs s' := by
  have hgen : ∀ todo done s, xs = done ++ todo → I done s → todo.foldlM f s = .ok s' →
      I xs s' := by
    intro todo
    induction todo with
    | nil =>
      intro done s hxs hs h
      rw [List.append_nil] at hxs
      rw [hxs, ← Except.ok.inj h]
      exact hs
    | cons x todo ih =>
      intro done s hxs hs h
      rw [List.foldlM_cons] at h
      obtain ⟨t, ht, h⟩ := bind_ok h
      exact ih (done ++ [x]) t (by rw [hxs, List.append_cons]) (hstep done x todo s t hxs hs ht) h
  exact hgen xs [] s rfl hstart h

/-- **The loop ends well** when no round can fail. -/
theorem exists_foldlM_ok {I : List α → σ → Prop} {f : σ → α → Except ε σ} {xs : List α} {s : σ}
    (hstart : I [] s)
    (hstep : ∀ done x rest s, xs = done ++ x :: rest → I done s →
      ∃ s', f s x = .ok s' ∧ I (done ++ [x]) s') :
    ∃ s', xs.foldlM f s = .ok s' ∧ I xs s' := by
  have hgen : ∀ todo done s, xs = done ++ todo → I done s →
      ∃ s', todo.foldlM f s = .ok s' ∧ I xs s' := by
    intro todo
    induction todo with
    | nil =>
      intro done s hxs hs
      rw [List.append_nil] at hxs
      exact ⟨s, rfl, hxs ▸ hs⟩
    | cons x todo ih =>
      intro done s hxs hs
      obtain ⟨t, ht, hI⟩ := hstep done x todo s hxs hs
      obtain ⟨s', hs', hfin⟩ := ih (done ++ [x]) t (by rw [hxs, List.append_cons]) hI
      refine ⟨s', ?_, hfin⟩
      rw [List.foldlM_cons, ht]
      exact hs'
  exact hgen xs [] s rfl hstart

end Results
end Basis
end LaneBroker
