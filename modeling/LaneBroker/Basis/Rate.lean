/-
# A rate that is kept with a ledger

An event may happen while the ledger has fewer than `cap` entries of the last `window`, and its time
is written down before it happens; whoever writes leaves out what is older.  What is written down
need not happen.  On a clock that does not go back no window, wherever it begins, has more than `cap`
events then (`Kept.bounded`): the first of them is still in the ledger when the last one is
allowed.
-/

import Mathlib.Data.List.Perm.Subperm
import Mathlib.Order.Lattice
import Mathlib.Data.Int.Notation

namespace LaneBroker
namespace Basis
namespace Rate

/-- The entries of the last `window`. -/
def recent (window : ℤ) (ledger : List ℤ) (now : ℤ) : List ℤ :=
  ledger.filter fun at' => 0 ≤ now - at' && now - at' < window

/-- The events of the window that begins at `t`. -/
def within (window : ℤ) (events : List ℤ) (t : ℤ) : List ℤ :=
  events.filter fun at' => t ≤ at' && at' < t + window

/-- **The rate is kept**: the ledger has every event that is recent, now or later, and no window has
too many events. -/
structure Kept (window : ℤ) (cap : ℕ) (ledger events : List ℤ) (now : ℤ) : Prop where
  past : ∀ at' ∈ events, at' ≤ now
  covered : ∀ later, now ≤ later → (recent window events later).Subperm (recent window ledger later)
  bounded : ∀ t, (within window events t).length ≤ cap

variable {window : ℤ} {cap : ℕ} {ledger events : List ℤ} {now later t : ℤ}

@[simp] theorem recent_append (l l' : List ℤ) (now : ℤ) :
    recent window (l ++ l') now = recent window l now ++ recent window l' now :=
  List.filter_append ..

@[simp] theorem within_append (l l' : List ℤ) (t : ℤ) :
    within window (l ++ l') t = within window l t ++ within window l' t :=
  List.filter_append ..

theorem kept_nil (ledger : List ℤ) (now : ℤ) : Kept window cap ledger [] now where
  past := nofun
  covered _ _ := List.nil_subperm
  bounded _ := Nat.zero_le _

/-- Time goes by. -/
theorem Kept.tick (h : Kept window cap ledger events now) (hle : now ≤ later) :
    Kept window cap ledger events later where
  past at' hat := (h.past at' hat).trans hle
  covered later' hlater := h.covered later' (hle.trans hlater)
  bounded := h.bounded

/-- What is not recent is not missed later. -/
theorem recent_recent (hle : now ≤ later) {l : List ℤ} (hpast : ∀ at' ∈ l, at' ≤ now) :
    recent window (recent window l now) later = recent window l later := by
  unfold recent
  rw [List.filter_filter]
  refine List.filter_congr fun at' hat => ?_
  have := hpast at' hat
  rw [Bool.eq_iff_iff]
  simp only [Bool.and_eq_true, decide_eq_true_eq]
  omega

/-- **The ledger is rewritten without what is old**, and covers the events as before. -/
theorem Kept.prune (h : Kept window cap ledger events now) (hle : now ≤ later) :
    (recent window events later).Subperm (recent window (recent window ledger now) later) := by
  rw [← recent_recent hle h.past]
  obtain ⟨l, hperm, hsub⟩ := h.covered now le_rfl
  exact ⟨recent window l later, hperm.filter _, hsub.filter _⟩

/-- **An entry is made**, and nothing happens. -/
theorem Kept.charge (h : Kept window cap ledger events now) :
    Kept window cap (recent window ledger now ++ [now]) events now where
  past := h.past
  covered later hle := by
    rw [recent_append]
    exact (h.prune hle).trans (List.sublist_append_left _ _).subperm
  bounded := h.bounded

/-- The events of a window that is not over are recent. -/
theorem length_within_le (h : Kept window cap ledger events now) (hover : now < t + window) :
    (within window events t).length ≤ (recent window ledger now).length := by
  have hsame : within window (recent window events now) t = within window events t := by
    unfold within recent
    rw [List.filter_filter]
    refine List.filter_congr fun at' hat => ?_
    have := h.past at' hat
    rw [Bool.eq_iff_iff]
    simp only [Bool.and_eq_true, decide_eq_true_eq]
    omega
  have hsub : (within window events t).Sublist (recent window events now) :=
    hsame ▸ List.filter_sublist
  exact hsub.length_le.trans (h.covered now le_rfl).length_le

/-- **An event happens**, where the ledger shows room, and is written down. -/
theorem Kept.admit (h : Kept window cap ledger events now)
    (hroom : (recent window ledger now).length < cap) :
    Kept window cap (recent window ledger now ++ [now]) (events ++ [now]) now where
  past at' hat := by
    rcases List.mem_append.1 hat with hat | hat
    · exact h.past at' hat
    · exact (List.mem_singleton.1 hat).le
  covered later hle := by
    rw [recent_append, recent_append]
    exact (h.prune hle).append (List.Subperm.refl _)
  bounded t := by
    rw [within_append, List.length_append]
    have hbound := h.bounded t
    by_cases hin : t ≤ now ∧ now < t + window
    · have hle := length_within_le h hin.2
      have hone : (within window [now] t).length = 1 := by simp [within, hin.1, hin.2]
      omega
    · have hzero : (within window [now] t).length = 0 := by
        simp only [within, List.length_eq_zero_iff]
        grind
      omega

end Rate
end Basis
end LaneBroker
