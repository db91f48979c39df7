/-
# Locked sections and the states a crash leaves

A locked section reads the state and makes a list of effects, one after the other, while no
other party runs: `Locked ε σ α` is its result together with the journal of its effects, each
computed from the state that the earlier ones left.  A section that completes leaves the state
after its whole journal (`Locked.after`); a crash of the party inside the section leaves the
state after a prefix of it.  `BeforeEach` says of a journal what holds before each of its effects,
which is what a crash can expose (`BeforeEach.crash`).
-/

import Mathlib.Data.List.Basic

namespace LaneBroker
namespace Basis

/-- **What one effect does to the state.** -/
class Effects (ε : Type) (σ : outParam Type) where
  /-- The state after the effect. -/
  apply : ε → σ → σ

variable {ε σ α β : Type}

/-- The state after a list of effects. -/
def applyAll [Effects ε σ] (es : List ε) (s : σ) : σ := es.foldl (fun t e => Effects.apply e t) s

@[simp] theorem applyAll_nil [Effects ε σ] (s : σ) : applyAll ([] : List ε) s = s := rfl

@[simp] theorem applyAll_cons [Effects ε σ] (e : ε) (es : List ε) (s : σ) :
    applyAll (e :: es) s = applyAll es (Effects.apply e s) := rfl

theorem applyAll_append [Effects ε σ] (es fs : List ε) (s : σ) :
    applyAll (es ++ fs) s = applyAll fs (applyAll es s) := List.foldl_append ..

/-- **A locked section**: its result and the journal of its effects, from the state it starts
in. -/
def Locked (ε σ α : Type) := σ → α × List ε

namespace Locked

/-- The result of a section. -/
def value (m : Locked ε σ α) (s : σ) : α := (m s).1

/-- The effects of a section, in order. -/
def journal (m : Locked ε σ α) (s : σ) : List ε := (m s).2

/-- The section that only reads. -/
def read : Locked ε σ σ := fun s => (s, [])

/-- The section of one effect. -/
def effect (e : ε) : Locked ε σ Unit := fun _ => ((), [e])

@[simp] theorem value_read (s : σ) : (read : Locked ε σ σ).value s = s := rfl
@[simp] theorem journal_read (s : σ) : (read : Locked ε σ σ).journal s = [] := rfl
@[simp] theorem value_effect (e : ε) (s : σ) : (effect e : Locked ε σ Unit).value s = () := rfl
@[simp] theorem journal_effect (e : ε) (s : σ) :
    (effect e : Locked ε σ Unit).journal s = [e] := rfl

variable [Effects ε σ]

/-- The state a completed section leaves. -/
def after (m : Locked ε σ α) (s : σ) : σ := applyAll (m.journal s) s

instance : Monad (Locked ε σ) where
  pure a := fun _ => (a, [])
  bind m f := fun s =>
    let r := f (m s).1 (applyAll (m s).2 s)
    (r.1, (m s).2 ++ r.2)

@[simp] theorem value_pure (a : α) (s : σ) : (pure a : Locked ε σ α).value s = a := rfl
@[simp] theorem journal_pure (a : α) (s : σ) : (pure a : Locked ε σ α).journal s = [] := rfl

@[simp] theorem value_bind (m : Locked ε σ α) (f : α → Locked ε σ β) (s : σ) :
    (m >>= f).value s = (f (m.value s)).value (m.after s) := rfl

@[simp] theorem journal_bind (m : Locked ε σ α) (f : α → Locked ε σ β) (s : σ) :
    (m >>= f).journal s = m.journal s ++ (f (m.value s)).journal (m.after s) := rfl

@[simp] theorem after_pure (a : α) (s : σ) : (pure a : Locked ε σ α).after s = s := rfl
@[simp] theorem after_read (s : σ) : (read : Locked ε σ σ).after s = s := rfl
@[simp] theorem after_effect (e : ε) (s : σ) :
    (effect e : Locked ε σ Unit).after s = Effects.apply e s := rfl

@[simp] theorem after_bind (m : Locked ε σ α) (f : α → Locked ε σ β) (s : σ) :
    (m >>= f).after s = (f (m.value s)).after (m.after s) := by
  simp only [after, journal_bind, applyAll_append]

end Locked

/-- **What holds before every effect of a journal**: `P` of the effect that comes next and of the
state it meets. -/
def BeforeEach [Effects ε σ] (P : ε → σ → Prop) : List ε → σ → Prop
  | [], _ => True
  | e :: es, s => P e s ∧ BeforeEach P es (Effects.apply e s)

section BeforeEach

variable [Effects ε σ] {P Q : ε → σ → Prop} {es fs : List ε} {s : σ}

@[simp] theorem beforeEach_nil : BeforeEach P [] s := trivial

@[simp] theorem beforeEach_cons {e : ε} :
    BeforeEach P (e :: es) s ↔ P e s ∧ BeforeEach P es (Effects.apply e s) := Iff.rfl

/-- Before each effect of two journals in sequence. -/
theorem beforeEach_append :
    BeforeEach P (es ++ fs) s ↔ BeforeEach P es s ∧ BeforeEach P fs (applyAll es s) := by
  induction es generalizing s with
  | nil => simp
  | cons e es ih => simp [ih, and_assoc]

theorem BeforeEach.mono (h : ∀ e t, P e t → Q e t) (hs : BeforeEach P es s) :
    BeforeEach Q es s := by
  induction es generalizing s with
  | nil => trivial
  | cons e es ih => exact ⟨h e s hs.1, ih hs.2⟩

/-- **What a crash exposes.**  After the first `k` effects either the next one is still to come,
and `P` holds of it, or the journal is done. -/
theorem BeforeEach.crash (h : BeforeEach P es s) (k : ℕ) :
    (∃ e, (es.drop k).head? = some e ∧ P e (applyAll (es.take k) s)) ∨ es.take k = es := by
  induction es generalizing s k with
  | nil => exact .inr (by simp)
  | cons e es ih =>
    cases k with
    | zero => exact .inl ⟨e, rfl, h.1⟩
    | succ k =>
      rcases ih h.2 k with ⟨f, hf, hP⟩ | hk
      · exact .inl ⟨f, hf, hP⟩
      · exact .inr (by rw [List.take_succ_cons, hk])

theorem BeforeEach.take (h : BeforeEach P es s) (k : ℕ) : BeforeEach P (es.take k) s := by
  induction es generalizing s k with
  | nil => simp
  | cons e es ih =>
    cases k with
    | zero => trivial
    | succ k => exact ⟨h.1, ih h.2 k⟩

theorem BeforeEach.and (h : BeforeEach P es s) (h' : BeforeEach Q es s) :
    BeforeEach (fun e t => P e t ∧ Q e t) es s := by
  induction es generalizing s with
  | nil => trivial
  | cons e es ih => exact ⟨⟨h.1, h'.1⟩, ih h.2 h'.2⟩

/-- What does not depend on the state holds of every effect. -/
theorem beforeEach_const {R : ε → Prop} : BeforeEach (fun e _ => R e) es s ↔ ∀ e ∈ es, R e := by
  induction es generalizing s with
  | nil => simp
  | cons e es ih => simp [ih]

/-- What every effect keeps when `P` holds before it holds after all of them. -/
theorem BeforeEach.keep {I : σ → Prop} (hstep : ∀ e t, P e t → I t → I (Effects.apply e t))
    (h : BeforeEach P es s) (hs : I s) : I (applyAll es s) := by
  induction es generalizing s with
  | nil => exact hs
  | cons e es ih => exact ih h.2 (hstep e s h.1 hs)

/-- **The loop rule.**  An invariant of the loop that gives `P` before every effect of one pass,
and that one pass keeps, gives `P` before every effect of the loop, and holds after it. -/
theorem forM_journal {I : σ → Prop} {f : α → Locked ε σ Unit} (xs : List α)
    (hpass : ∀ x ∈ xs, ∀ t, I t → BeforeEach P ((f x).journal t) t ∧ I ((f x).after t))
    (hs : I s) : BeforeEach P ((xs.forM f).journal s) s ∧ I ((xs.forM f).after s) := by
  induction xs generalizing s with
  | nil => exact ⟨trivial, hs⟩
  | cons x xs ih =>
    have h := hpass x (List.mem_cons_self ..) s hs
    have h' := ih (fun y hy => hpass y (List.mem_cons_of_mem _ hy)) h.2
    have hcons : (x :: xs).forM f = f x >>= fun _ => xs.forM f := rfl
    rw [hcons, Locked.journal_bind, Locked.after_bind]
    exact ⟨beforeEach_append.2 ⟨h.1, h'.1⟩, h'.2⟩

end BeforeEach

end Basis
end LaneBroker
