/-
# Programs of calls and answers

An asynchronous function makes calls and waits for their answers, and between two calls the rest
of the world goes on.  `Program` is such a function: it has returned, has thrown, or makes a call
and goes on with the answer.  `After p events q` says that `p` is at `q` when the calls of
`events` have been answered as they say; `Ends p Q` that `Q` holds of how `p` ends and of the
calls it made, whatever was answered; `Asks p C` that every call it can come to meets `C`.
-/

import Mathlib.Logic.Basic

namespace LaneBroker
namespace Basis

/-- **A program**: the calls `χ` it can make, the answers `ρ c` a call can have, what it throws
and what it returns. -/
inductive Program (χ : Type) (ρ : χ → Type) (ε α : Type)
  | done (a : α)
  | thrown (e : ε)
  | call (c : χ) (next : ρ c → Program χ ρ ε α)

namespace Program

variable {χ : Type} {ρ : χ → Type} {ε α β : Type}

/-- An answered call. -/
abbrev Event (ρ : χ → Type) := (c : χ) × ρ c

/-- A program and then another on what it returned. -/
def bind : Program χ ρ ε α → (α → Program χ ρ ε β) → Program χ ρ ε β
  | .done a, f => f a
  | .thrown e, _ => .thrown e
  | .call c next, f => .call c fun r => bind (next r) f

instance : Monad (Program χ ρ ε) where
  pure := .done
  bind := bind

@[simp] theorem pure_eq (a : α) : (pure a : Program χ ρ ε α) = .done a := rfl

@[simp] theorem done_bind (a : α) (f : α → Program χ ρ ε β) : (.done a >>= f) = f a := rfl

@[simp] theorem thrown_bind (e : ε) (f : α → Program χ ρ ε β) :
    ((.thrown e : Program χ ρ ε α) >>= f) = .thrown e := rfl

@[simp] theorem call_bind (c : χ) (next : ρ c → Program χ ρ ε α) (f : α → Program χ ρ ε β) :
    (.call c next >>= f) = .call c fun r => next r >>= f := rfl

/-- How a program ended. -/
def ended : Except ε α → Program χ ρ ε α
  | .ok a => .done a
  | .error e => .thrown e

/-- **Where a program is after some calls and their answers.** -/
inductive After : Program χ ρ ε α → List (Event ρ) → Program χ ρ ε α → Prop
  | here (p) : After p [] p
  | answered {c : χ} {next : ρ c → Program χ ρ ε α} (r : ρ c) {events q} :
    After (next r) events q → After (.call c next) (⟨c, r⟩ :: events) q

/-- One answer more. -/
theorem After.answer {p : Program χ ρ ε α} {events : List (Event ρ)} {c : χ}
    {next : ρ c → Program χ ρ ε α} (h : After p events (.call c next)) (r : ρ c) :
    After p (events ++ [⟨c, r⟩]) (next r) := by
  generalize hq : Program.call c next = q at h
  induction h with
  | here p =>
    subst hq
    exact .answered r (.here _)
  | answered r' _ ih => exact .answered r' (ih hq)

/-- **How a program ends**, whatever is answered: what it returned or threw, and the calls it
made. -/
def Ends : Program χ ρ ε α → (Except ε α → List (Event ρ) → Prop) → Prop
  | .done a, Q => Q (.ok a) []
  | .thrown e, Q => Q (.error e) []
  | .call c next, Q => ∀ r, Ends (next r) fun x events => Q x (⟨c, r⟩ :: events)

variable {Q Q' : Except ε α → List (Event ρ) → Prop}

@[simp] theorem ends_done {a : α} : Ends (.done a : Program χ ρ ε α) Q ↔ Q (.ok a) [] := Iff.rfl

@[simp] theorem ends_thrown {e : ε} : Ends (.thrown e : Program χ ρ ε α) Q ↔ Q (.error e) [] :=
  Iff.rfl

@[simp] theorem ends_call {c : χ} {next : ρ c → Program χ ρ ε α} :
    Ends (.call c next) Q ↔ ∀ r, Ends (next r) fun x events => Q x (⟨c, r⟩ :: events) := Iff.rfl

theorem Ends.mono {p : Program χ ρ ε α} (h : Ends p Q) (hle : ∀ x events, Q x events → Q' x events) :
    Ends p Q' := by
  induction p generalizing Q Q' with
  | done a => exact hle _ _ h
  | thrown e => exact hle _ _ h
  | call c next ih => exact fun r => ih r (h r) fun x events => hle x (⟨c, r⟩ :: events)

theorem ends_true (p : Program χ ρ ε α) : Ends p fun _ _ => True := by
  induction p with
  | done a => trivial
  | thrown e => trivial
  | call c next ih => exact fun r => ih r

/-- **The sequence rule.** -/
theorem ends_bind {p : Program χ ρ ε α} {f : α → Program χ ρ ε β}
    {Q : Except ε β → List (Event ρ) → Prop} :
    Ends (p >>= f) Q ↔ Ends p fun x events =>
      match x with
      | .ok a => Ends (f a) fun y more => Q y (events ++ more)
      | .error e => Q (.error e) events := by
  induction p generalizing Q with
  | done a => simp
  | thrown e => simp
  | call c next ih => exact forall_congr' fun r => ih r

/-- **The rule applied**: what a program that has ended did. -/
theorem Ends.apply {p : Program χ ρ ε α} (h : Ends p Q) {events : List (Event ρ)}
    {x : Except ε α} (hx : After p events (ended x)) : Q x events := by
  induction p generalizing Q events with
  | done a | thrown e =>
    cases x <;> cases hx
    exact h
  | call c next ih =>
    generalize hq : ended x = q at hx
    cases hx with
    | here => cases x <;> cases hq
    | answered r hx => exact ih r (h r) (hq ▸ hx)

/-- **Every call the program can come to meets a condition.** -/
def Asks (C : χ → Prop) : Program χ ρ ε α → Prop
  | .done _ => True
  | .thrown _ => True
  | .call c next => C c ∧ ∀ r, Asks C (next r)

variable {C : χ → Prop}

@[simp] theorem asks_done {a : α} : Asks C (.done a : Program χ ρ ε α) := trivial

@[simp] theorem asks_thrown {e : ε} : Asks C (.thrown e : Program χ ρ ε α) := trivial

@[simp] theorem asks_call {c : χ} {next : ρ c → Program χ ρ ε α} :
    Asks C (.call c next) ↔ C c ∧ ∀ r, Asks C (next r) := Iff.rfl

theorem asks_bind {p : Program χ ρ ε α} {f : α → Program χ ρ ε β} (hp : Asks C p)
    (hf : ∀ a, Asks C (f a)) : Asks C (p >>= f) := by
  induction p with
  | done a => exact hf a
  | thrown e => trivial
  | call c next ih => exact ⟨hp.1, fun r => ih r (hp.2 r)⟩

theorem After.asks {p q : Program χ ρ ε α} {events : List (Event ρ)} (h : After p events q)
    (hp : Asks C p) : Asks C q := by
  induction h with
  | here p => exact hp
  | answered r _ ih => exact ih (hp.2 r)

end Program
end Basis
end LaneBroker
