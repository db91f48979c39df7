/-
# Operations whose calls may fail

An operation works on a state and makes calls to the host, each of which may succeed, fail with
nothing done, or be where the process dies; an atomic write may also fail when its work is done,
as its directory is synced.  `Fallible` is such an operation:
it is told the answer of every call and gives how it ended and the state it left.  `Ends` is what
holds at its end, with one rule for each way of putting operations together; `Keeps` is the
special case of an invariant, which also holds where the operation threw and where the process died.
-/

import Mathlib.Data.List.Basic

namespace LaneBroker
namespace Basis

/-- **How the host answers a call.** -/
inductive Answer
  | ok
  /-- The call throws and has done nothing. -/
  | fails
  /-- A call of several steps throws behind the one that counts. -/
  | failsLate
  /-- The process dies before the call. -/
  | dies
  deriving DecidableEq, Repr

/-- The call throws, early or late. -/
def Answer.Throws (a : Answer) : Prop := a = .fails ∨ a = .failsLate

instance (a : Answer) : Decidable a.Throws := inferInstanceAs (Decidable (_ ∨ _))

/-- **How an operation ends.** -/
inductive Ending (ε α : Type)
  | returned (a : α)
  | thrown (e : ε)
  | died
  deriving DecidableEq, Repr

/-- **An operation**: calls `κ`, states `σ`, errors `ε`. -/
def Fallible (κ σ ε α : Type) := (κ → Answer) → σ → Ending ε α × σ

namespace Fallible

variable {κ κ' σ ε α β : Type}

/-- One operation and then another on what it returned. -/
def bind (m : Fallible κ σ ε α) (f : α → Fallible κ σ ε β) : Fallible κ σ ε β := fun io s =>
  match m io s with
  | (.returned a, t) => f a io t
  | (.thrown e, t) => (.thrown e, t)
  | (.died, t) => (.died, t)

instance : Monad (Fallible κ σ ε) where
  pure a := fun _ s => (.returned a, s)
  bind := bind

theorem bind_pure (m : Fallible κ σ ε α) : m >>= pure = m := by
  funext io s
  change bind m pure io s = m io s
  unfold bind
  obtain ⟨o, t⟩ := m io s
  cases o <;> rfl

theorem bind_assoc {γ : Type} (m : Fallible κ σ ε α) (f : α → Fallible κ σ ε β)
    (g : β → Fallible κ σ ε γ) : m >>= f >>= g = m >>= fun a => f a >>= g := by
  funext io s
  change bind (bind m f) g io s = bind m (fun a => bind (f a) g) io s
  unfold bind
  obtain ⟨o, t⟩ := m io s
  cases o <;> rfl

instance : LawfulMonad (Fallible κ σ ε) := LawfulMonad.mk' _ bind_pure (fun _ _ => rfl) bind_assoc

/-- `throw`. -/
def raise (e : ε) : Fallible κ σ ε α := fun _ s => (.thrown e, s)

/-- The state. -/
def get : Fallible κ σ ε σ := fun _ s => (.returned s, s)

/-- A change of the state that cannot fail. -/
def modify (f : σ → σ) : Fallible κ σ ε Unit := fun _ s => (.returned (), f s)

/-- **A call** that changes the state, and throws `e` if it throws. -/
def call (c : κ) (e : ε) (f : σ → σ) : Fallible κ σ ε Unit := fun io s =>
  match io c with
  | .ok => (.returned (), f s)
  | .fails | .failsLate => (.thrown e, s)
  | .dies => (.died, s)

/-- **An atomic write**: it may throw when its work is done. -/
def write (c : κ) (e : ε) (f : σ → σ) : Fallible κ σ ε Unit := fun io s =>
  match io c with
  | .ok => (.returned (), f s)
  | .fails => (.thrown e, s)
  | .failsLate => (.thrown e, f s)
  | .dies => (.died, s)

/-- A call that reads. -/
def ask (c : κ) (e : ε) (f : σ → α) : Fallible κ σ ε α := do
  call c e id
  return f (← get)

/-- `try` and `catch`. -/
def handle (m : Fallible κ σ ε α) (h : ε → Fallible κ σ ε α) : Fallible κ σ ε α := fun io s =>
  match m io s with
  | (.returned a, t) => (.returned a, t)
  | (.thrown e, t) => h e io t
  | (.died, t) => (.died, t)

/-- `try` and `finally`: what `h` throws is what is thrown. -/
def ensuring (m : Fallible κ σ ε α) (h : Fallible κ σ ε Unit) : Fallible κ σ ε α := fun io s =>
  match m io s with
  | (.died, t) => (.died, t)
  | (o, t) =>
    match h io t with
    | (.returned _, t') => (o, t')
    | (.thrown e, t') => (.thrown e, t')
    | (.died, t') => (.died, t')

/-- An operation whose calls are calls of another kind. -/
def under (f : κ' → κ) (m : Fallible κ' σ ε α) : Fallible κ σ ε α := fun io s => m (fun c => io (f c)) s

section Runs

variable {io : κ → Answer} {m : Fallible κ σ ε α} {f : α → Fallible κ σ ε β} {s t : σ}

theorem bind_of_returned {a : α} (h : m io s = (.returned a, t)) : (m >>= f) io s = f a io t := by
  change bind m f io s = _
  unfold bind
  rw [h]

theorem bind_of_thrown {e : ε} (h : m io s = (.thrown e, t)) : (m >>= f) io s = (.thrown e, t) := by
  change bind m f io s = _
  unfold bind
  rw [h]

end Runs

/-! ### How an operation ends -/

/-- **What holds at the end of an operation**: `R` where it returns, `T` where it throws, and `D`
where the process dies. -/
def Ends (io : κ → Answer) (m : Fallible κ σ ε α) (s : σ) (R : α → σ → Prop) (T : ε → σ → Prop)
    (D : σ → Prop) : Prop :=
  match m io s with
  | (.returned a, t) => R a t
  | (.thrown e, t) => T e t
  | (.died, t) => D t

section Rules

variable {io : κ → Answer} {m : Fallible κ σ ε α} {s : σ} {R R' : α → σ → Prop} {T T' : ε → σ → Prop}
  {D D' : σ → Prop}

theorem Ends.mono (h : Ends io m s R T D) (hR : ∀ a t, R a t → R' a t)
    (hT : ∀ e t, T e t → T' e t) (hD : ∀ t, D t → D' t) : Ends io m s R' T' D' := by
  unfold Ends at h ⊢
  split <;> rename_i heq <;> rw [heq] at h
  · exact hR _ _ h
  · exact hT _ _ h
  · exact hD _ h

theorem Ends.imp (h : Ends io m s R T D) (hR : ∀ a t, R a t → R' a t) : Ends io m s R' T D :=
  h.mono hR (fun _ _ h => h) fun _ h => h

theorem Ends.and (h : Ends io m s R T D) (h' : Ends io m s R' T' D') :
    Ends io m s (fun a t => R a t ∧ R' a t) (fun e t => T e t ∧ T' e t) fun t => D t ∧ D' t := by
  unfold Ends at h h' ⊢
  split <;> rename_i heq <;> rw [heq] at h h'
  · exact ⟨h, h'⟩
  · exact ⟨h, h'⟩
  · exact ⟨h, h'⟩

/-- **How it ends, case by case.** -/
theorem ends_iff : Ends io m s R T D ↔ (∀ a t, m io s = (.returned a, t) → R a t) ∧
    (∀ e t, m io s = (.thrown e, t) → T e t) ∧ ∀ t, m io s = (.died, t) → D t := by
  unfold Ends
  split <;> rename_i heq <;> simp [heq]

/-- What holds however an operation ends holds of the state it ends in. -/
theorem Ends.final {Q : σ → Prop} (h : Ends io m s (fun _ => Q) (fun _ => Q) Q) : Q (m io s).2 := by
  unfold Ends at h
  split at h <;> rename_i heq <;> rw [heq] <;> exact h

@[simp] theorem ends_pure {a : α} : Ends io (pure a) s R T D ↔ R a s := Iff.rfl

@[simp] theorem ends_get {R : σ → σ → Prop} : Ends io get s R T D ↔ R s s := Iff.rfl

@[simp] theorem ends_modify {f : σ → σ} {R : Unit → σ → Prop} :
    Ends io (modify f) s R T D ↔ R () (f s) := Iff.rfl

/-- **The sequence rule.** -/
theorem ends_bind {f : α → Fallible κ σ ε β} {R : β → σ → Prop} :
    Ends io (m >>= f) s R T D ↔ Ends io m s (fun a t => Ends io (f a) t R T D) T D := by
  unfold Ends
  change (match bind m f io s with
    | (.returned a, t) => R a t
    | (.thrown e, t) => T e t
    | (.died, t) => D t) ↔ _
  unfold bind
  obtain ⟨o, t⟩ := m io s
  cases o <;> rfl

/-- The sequence rule, with what holds in between. -/
theorem Ends.bind {f : α → Fallible κ σ ε β} {Q : β → σ → Prop} (h : Ends io m s R T D)
    (hf : ∀ a t, R a t → Ends io (f a) t Q T D) : Ends io (m >>= f) s Q T D :=
  ends_bind.2 (h.imp hf)

/-- **The rule for a call.** -/
theorem ends_call {c : κ} {e : ε} {f : σ → σ} {R : Unit → σ → Prop}
    (hok : io c = .ok → R () (f s)) (hfails : io c = .fails ∨ io c = .failsLate → T e s)
    (hdies : io c = .dies → D s) : Ends io (call c e f) s R T D := by
  unfold Ends call
  cases hc : io c with
  | ok => exact hok hc
  | fails => exact hfails (.inl hc)
  | failsLate => exact hfails (.inr hc)
  | dies => exact hdies hc

/-- **The rule for an atomic write.** -/
theorem ends_write {c : κ} {e : ε} {f : σ → σ} {R : Unit → σ → Prop}
    (hok : io c = .ok → R () (f s)) (hfails : io c = .fails → T e s)
    (hlate : io c = .failsLate → T e (f s)) (hdies : io c = .dies → D s) :
    Ends io (write c e f) s R T D := by
  unfold Ends write
  cases hc : io c with
  | ok => exact hok hc
  | fails => exact hfails hc
  | failsLate => exact hlate hc
  | dies => exact hdies hc

theorem ends_ask {c : κ} {e : ε} {f : σ → α} (hok : R (f s) s) (hfails : T e s) (hdies : D s) :
    Ends io (ask c e f) s R T D :=
  ends_bind.2 (ends_call (fun _ => hok) (fun _ => hfails) fun _ => hdies)

/-- The rule for a read in front of more. -/
theorem ends_ask_bind {c : κ} {e : ε} {f : σ → β} {g : β → Fallible κ σ ε α}
    (hok : Ends io (g (f s)) s R T D) (hfails : T e s) (hdies : D s) :
    Ends io (ask c e f >>= g) s R T D :=
  ends_bind.2 (ends_ask hok hfails hdies)

theorem ends_handle {h : ε → Fallible κ σ ε α} :
    Ends io (handle m h) s R T D ↔
      Ends io m s R (fun e t => Ends io (h e) t R T D) D := by
  unfold Ends handle
  dsimp only
  obtain ⟨o, t⟩ := m io s
  cases o <;> rfl

theorem ends_ensuring {h : Fallible κ σ ε Unit} :
    Ends io (ensuring m h) s R T D ↔
      Ends io m s (fun a t => Ends io h t (fun _ => R a) T D)
        (fun e t => Ends io h t (fun _ => T e) T D) D := by
  unfold Ends ensuring
  dsimp only
  obtain ⟨o, t⟩ := m io s
  cases o with
  | died => rfl
  | returned a | thrown e =>
    dsimp only
    obtain ⟨o', t'⟩ := h io t
    cases o' <;> rfl

theorem ends_under {io : κ → Answer} {f : κ' → κ} {m : Fallible κ' σ ε α} :
    Ends io (under f m) s R T D ↔ Ends (fun c => io (f c)) m s R T D := Iff.rfl

/-- **The loop rule.** -/
theorem ends_forM {γ : Type} {I : σ → Prop} {f : γ → Fallible κ σ ε Unit} (xs : List γ)
    (hpass : ∀ x ∈ xs, ∀ t, I t → Ends io (f x) t (fun _ => I) T D) (hs : I s) :
    Ends io (xs.forM f) s (fun _ => I) T D := by
  induction xs generalizing s with
  | nil => exact hs
  | cons x xs ih =>
    have hcons : (x :: xs).forM f = f x >>= fun _ => xs.forM f := rfl
    rw [hcons]
    exact (hpass x List.mem_cons_self s hs).bind fun _ t ht =>
      ih (fun y hy => hpass y (List.mem_cons_of_mem _ hy)) ht

/-- **The rule for a loop that does something for each element**, where what is done stays done. -/
theorem ends_forM_each {γ : Type} {I : σ → Prop} {Q : γ → σ → Prop}
    {f : γ → Fallible κ σ ε Unit} (xs : List γ)
    (hpass : ∀ x ∈ xs, ∀ t, I t →
      Ends io (f x) t (fun _ t' => I t' ∧ Q x t' ∧ ∀ y, Q y t → Q y t') T D)
    (hs : I s) : Ends io (xs.forM f) s (fun _ t => I t ∧ ∀ x ∈ xs, Q x t) T D := by
  suffices h : ∀ done : γ → Prop, (∀ y, done y → Q y s) →
      Ends io (xs.forM f) s (fun _ t => I t ∧ (∀ x ∈ xs, Q x t) ∧ ∀ y, done y → Q y t) T D from
    (h (fun _ => False) fun _ h => h.elim).imp fun _ _ ht => ⟨ht.1, ht.2.1⟩
  induction xs generalizing s with
  | nil => exact fun done hdone => ⟨hs, by simp, hdone⟩
  | cons x xs ih =>
    intro done hdone
    have hcons : (x :: xs).forM f = f x >>= fun _ => xs.forM f := rfl
    rw [hcons]
    refine (hpass x List.mem_cons_self s hs).bind fun _ t ht => ?_
    obtain ⟨hI, hx, hkept⟩ := ht
    refine (ih (fun y hy => hpass y (List.mem_cons_of_mem _ hy)) hI (fun y => y = x ∨ done y)
      fun y hy => hy.elim (fun h => h ▸ hx) fun h => hkept y (hdone y h)).imp fun _ u hu => ?_
    refine ⟨hu.1, fun y hy => ?_, fun y hy => hu.2.2 y (.inr hy)⟩
    rcases List.mem_cons.1 hy with rfl | hy
    · exact hu.2.2 y (.inl rfl)
    · exact hu.2.1 y hy

end Rules

/-! ### Invariants -/

/-- **An invariant of an operation**, under these answers: it holds where the operation returns and
where it throws, and `D` holds where the process dies. -/
def Lasts (io : κ → Answer) (P D : σ → Prop) (m : Fallible κ σ ε α) : Prop :=
  ∀ s, P s → Ends io m s (fun _ => P) (fun _ => P) D

/-- **An invariant that death keeps**: it holds however the operation ends. -/
def Keeps (P : σ → Prop) (m : Fallible κ σ ε α) : Prop := ∀ io, Lasts io P P m

section Invariants

variable {io : κ → Answer} {P D : σ → Prop} {m : Fallible κ σ ε α}

theorem lasts_pure (a : α) : Lasts io P D (pure a : Fallible κ σ ε α) := fun _ h => h

theorem lasts_raise (e : ε) : Lasts io P D (raise e : Fallible κ σ ε α) := fun _ h => h

theorem lasts_get : Lasts io P D (get : Fallible κ σ ε σ) := fun _ h => h

theorem lasts_modify {f : σ → σ} (h : ∀ s, P s → P (f s)) :
    Lasts io P D (modify f : Fallible κ σ ε Unit) := fun s hs => h s hs

theorem lasts_call (hD : ∀ s, P s → D s) {c : κ} {e : ε} {f : σ → σ} (h : ∀ s, P s → P (f s)) :
    Lasts io P D (call c e f) :=
  fun s hs => ends_call (fun _ => h s hs) (fun _ => hs) fun _ => hD s hs

theorem lasts_write (hD : ∀ s, P s → D s) {c : κ} {e : ε} {f : σ → σ} (h : ∀ s, P s → P (f s)) :
    Lasts io P D (write c e f) :=
  fun s hs => ends_write (fun _ => h s hs) (fun _ => hs) (fun _ => h s hs) fun _ => hD s hs

theorem lasts_ask (hD : ∀ s, P s → D s) {c : κ} {e : ε} {f : σ → α} : Lasts io P D (ask c e f) :=
  fun s hs => ends_ask hs hs (hD s hs)

theorem Lasts.bind {f : α → Fallible κ σ ε β} (hm : Lasts io P D m) (hf : ∀ a, Lasts io P D (f a)) :
    Lasts io P D (m >>= f) := fun s hs => Ends.bind (hm s hs) fun a t ht => hf a t ht

theorem Lasts.handle {h : ε → Fallible κ σ ε α} (hm : Lasts io P D m) (hh : ∀ e, Lasts io P D (h e)) :
    Lasts io P D (handle m h) := fun s hs =>
  ends_handle.2 ((hm s hs).mono (fun _ _ h => h) (fun e t ht => hh e t ht) fun _ h => h)

theorem Lasts.ensuring {h : Fallible κ σ ε Unit} (hm : Lasts io P D m) (hh : Lasts io P D h) :
    Lasts io P D (ensuring m h) := fun s hs =>
  ends_ensuring.2 ((hm s hs).mono (fun _ t ht => hh t ht) (fun _ t ht => hh t ht) fun _ h => h)

theorem Lasts.under {f : κ' → κ} {m : Fallible κ' σ ε α} (hm : Lasts (fun c => io (f c)) P D m) :
    Lasts io P D (under f m) := hm

theorem lasts_forM {γ : Type} {f : γ → Fallible κ σ ε Unit} (xs : List γ)
    (h : ∀ x, Lasts io P D (f x)) : Lasts io P D (xs.forM f) := fun _ hs =>
  ends_forM xs (fun x _ t ht => h x t ht) hs

theorem keeps_pure (a : α) : Keeps P (pure a : Fallible κ σ ε α) := fun _ => lasts_pure a

theorem keeps_raise (e : ε) : Keeps P (raise e : Fallible κ σ ε α) := fun _ => lasts_raise e

theorem keeps_get : Keeps P (get : Fallible κ σ ε σ) := fun _ => lasts_get

theorem keeps_modify {f : σ → σ} (h : ∀ s, P s → P (f s)) :
    Keeps P (modify f : Fallible κ σ ε Unit) := fun _ => lasts_modify h

theorem keeps_call {c : κ} {e : ε} {f : σ → σ} (h : ∀ s, P s → P (f s)) :
    Keeps P (call c e f) := fun _ => lasts_call (fun _ hs => hs) h

theorem keeps_write {c : κ} {e : ε} {f : σ → σ} (h : ∀ s, P s → P (f s)) :
    Keeps P (write c e f) := fun _ => lasts_write (fun _ hs => hs) h

theorem keeps_ask {c : κ} {e : ε} {f : σ → α} : Keeps P (ask c e f) :=
  fun _ => lasts_ask fun _ hs => hs

theorem Keeps.bind {f : α → Fallible κ σ ε β} (hm : Keeps P m) (hf : ∀ a, Keeps P (f a)) :
    Keeps P (m >>= f) := fun io => (hm io).bind fun a => hf a io

theorem Keeps.handle {h : ε → Fallible κ σ ε α} (hm : Keeps P m) (hh : ∀ e, Keeps P (h e)) :
    Keeps P (handle m h) := fun io => (hm io).handle fun e => hh e io

theorem Keeps.ensuring {h : Fallible κ σ ε Unit} (hm : Keeps P m) (hh : Keeps P h) :
    Keeps P (ensuring m h) := fun io => (hm io).ensuring (hh io)

theorem Keeps.under {f : κ' → κ} {m : Fallible κ' σ ε α} (hm : Keeps P m) : Keeps P (under f m) :=
  fun _ => Lasts.under (hm _)

theorem keeps_forM {γ : Type} {f : γ → Fallible κ σ ε Unit} (xs : List γ) (h : ∀ x, Keeps P (f x)) :
    Keeps P (xs.forM f) :=
  fun io => lasts_forM xs fun x => h x io

end Invariants

end Fallible
end Basis
end LaneBroker
