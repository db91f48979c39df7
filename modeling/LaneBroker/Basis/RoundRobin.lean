/-
# Going round a list in turns

Whoever works through a sorted list a few elements at a time, and keeps a mark at the last one
it came to, goes on behind the mark the next time, and from the top where nothing is behind it
(`turn`).  The list may change from one turn to the next.  What a turn that does not come to
an element takes is all `ahead` of that element, and what is ahead of it from the new mark is
the rest (`card_ahead_add_length_le`).

The mark may also be moved late: several turns start from one mark before the first of them
moves it, and a mark that is moved late moves back what others have moved on since
(`Marks.Step`).  Each of these moves is paid for out of a stock (`Marks.stock`), so there are
not many before nothing is ahead.
-/

import Mathlib.Algebra.BigOperators.Intervals
import Mathlib.Algebra.BigOperators.Ring.Finset
import Mathlib.Algebra.Order.BigOperators.Group.List
import Mathlib.Data.Finset.Card
import Mathlib.Data.List.Sort
import Mathlib.Tactic.Ring

namespace LaneBroker
namespace Basis

/-! ### One turn -/

namespace RoundRobin

variable {α : Type} [LinearOrder α]

/-- Is an element behind the mark?  Everything is, where there is none. -/
def behind (c : Option α) (n : α) : Bool := c.all fun m => m < n

/-- **The list from behind the mark on**, and then from the top. -/
def turn (names : List α) (c : Option α) : List α :=
  match names.findIdx? (behind c) with
  | some k => names.drop k ++ names.take k
  | none => names

/-- From the mark on, `x` comes before `y`. -/
def Before (c : Option α) (x y : α) : Prop :=
  (behind c x = true ∧ behind c y = false) ∨ (behind c x = behind c y ∧ x < y)

instance (c : Option α) : DecidableRel (Before c) := fun x y => by
  unfold Before; infer_instance

/-- What there is, among some elements, from the mark up to `n`. -/
def ahead (U : Finset α) (c : Option α) (n : α) : Finset α :=
  U.filter fun u => u = n ∨ Before c u n

variable {names taken : List α} {c : Option α} {m n x y : α} {U : Finset α}

theorem behind_of_lt (h : x < y) (hx : behind c x = true) : behind c y = true := by
  cases c with
  | none => rfl
  | some m =>
    have hmx : m < x := by simpa [behind] using hx
    simpa [behind] using hmx.trans h

/-- A turn goes over the same elements. -/
theorem turn_perm (names : List α) (c : Option α) : (turn names c).Perm names := by
  unfold turn
  split
  · exact List.perm_append_comm.trans (.of_eq (List.take_append_drop _ names))
  · exact .refl names

theorem mem_turn : n ∈ turn names c ↔ n ∈ names := (turn_perm names c).mem_iff

theorem length_turn (names : List α) (c : Option α) : (turn names c).length = names.length :=
  (turn_perm names c).length_eq

/-- **A turn over a sorted list goes from the mark on.** -/
theorem turn_sorted (h : names.Pairwise (· < ·)) : (turn names c).Pairwise (Before c) := by
  have hsame {xs : List α} (hxs : xs.Pairwise (· < ·)) {b : Bool}
      (hb : ∀ x ∈ xs, behind c x = b) : xs.Pairwise (Before c) := by
    refine List.Pairwise.imp_of_mem (fun {x y} hx hy hlt => ?_) hxs
    exact .inr ⟨(hb x hx).trans (hb y hy).symm, hlt⟩
  unfold turn
  split
  · rename_i k hk
    obtain ⟨hklt, hat, hfirst⟩ := List.findIdx?_eq_some_iff_getElem.1 hk
    have hsplit := List.take_append_drop k names
    have hfront : ∀ x ∈ names.take k, behind c x = false := by
      intro x hx
      obtain ⟨i, hi, rfl⟩ := List.getElem_of_mem hx
      have hik : i < k := by
        have := hi
        rw [List.length_take] at this
        omega
      rw [List.getElem_take]
      simpa using hfirst i hik
    have hback : ∀ x ∈ names.drop k, behind c x = true := by
      intro x hx
      have hdrop : names.drop k = names[k] :: names.drop (k + 1) :=
        List.drop_eq_getElem_cons hklt
      rw [hdrop] at hx
      obtain rfl | hx := List.mem_cons.1 hx
      · exact hat
      · have hlater : (names.drop k).Pairwise (· < ·) := h.sublist (List.drop_sublist k names)
        rw [hdrop] at hlater
        exact behind_of_lt ((List.pairwise_cons.1 hlater).1 x hx) hat
    refine List.pairwise_append.2 ⟨hsame (h.sublist (List.drop_sublist k names)) hback,
      hsame (h.sublist (List.take_sublist k names)) hfront, fun x hx y hy => ?_⟩
    exact .inl ⟨hback x hx, hfront y hy⟩
  · rename_i hnone
    exact hsame h fun x hx => by simpa using List.findIdx?_eq_none_iff.1 hnone x hx

theorem not_before_self (c : Option α) (x : α) : ¬ Before c x x := by
  rintro (⟨hx, hx'⟩ | ⟨-, hlt⟩)
  · rw [hx] at hx'
    cases hx'
  · exact lt_irrefl x hlt

theorem Before.trans {z : α} (hxy : Before c x y) (hyz : Before c y z) : Before c x z := by
  unfold Before at *
  cases hx : behind c x <;> cases hy : behind c y <;> cases hz : behind c z <;>
    simp_all
  · exact hxy.trans hyz
  · exact hxy.trans hyz

/-- What lies between a later mark `m` and `n` lies between the mark and `n`, and after `m`. -/
theorem before_of_moved (hmn : Before c m n) (hx : x = n ∨ Before (some m) x n) :
    (x = n ∨ Before c x n) ∧ Before c m x := by
  obtain rfl | hx := hx
  · exact ⟨.inl rfl, hmn⟩
  have hlt {y : α} : behind (some m) y = true ↔ m < y := by simp [behind]
  have hle {y : α} : behind (some m) y = false ↔ y ≤ m := by simp [behind]
  obtain ⟨hm, hn⟩ | ⟨hmn, hlt'⟩ := hmn
  · -- the way from `m` to `n` goes over the top
    have hnm : n ≤ m := by
      by_contra hcon
      rw [behind_of_lt (not_le.1 hcon) hm] at hn
      cases hn
    obtain ⟨hmx, -⟩ | ⟨hsame, hxn⟩ := hx
    · have hbx := behind_of_lt (hlt.1 hmx) hm
      exact ⟨.inr (.inl ⟨hbx, hn⟩), .inr ⟨hm.trans hbx.symm, hlt.1 hmx⟩⟩
    · have hbx : behind c x = false := by
        by_contra hcon
        rw [behind_of_lt hxn (by simpa using hcon)] at hn
        cases hn
      exact ⟨.inr (.inr ⟨hbx.trans hn.symm, hxn⟩), .inl ⟨hm, hbx⟩⟩
  · -- it does not
    obtain ⟨-, hnm⟩ | ⟨hsame, hxn⟩ := hx
    · exact absurd hlt' (not_lt.2 (hle.1 hnm))
    · have hmx : m < x := hlt.1 (hsame.trans (hlt.2 hlt'))
      have hbx : behind c x = behind c m := by
        cases hm : behind c m with
        | true => exact behind_of_lt hmx hm
        | false =>
          by_contra hcon
          have hbn : behind c n = true := behind_of_lt hxn (by simpa using hcon)
          rw [← hmn, hm] at hbn
          cases hbn
      exact ⟨.inr (.inr ⟨hbx.trans hmn, hxn⟩), .inr ⟨hbx.symm, hmx⟩⟩

/-- **What a turn that does not come to an element leaves ahead of it**: at least as many fewer as
it takes. -/
theorem card_ahead_add_length_le (h : names.Pairwise (· < ·)) (hU : ∀ u ∈ names, u ∈ U)
    (hn : n ∈ names) (htaken : taken <+: turn names c) (hlast : taken.getLast? = some m)
    (hnot : n ∉ taken) : (ahead U (some m) n).card + taken.length ≤ (ahead U c n).card := by
  obtain ⟨rest, hrest⟩ := htaken
  obtain ⟨before, rfl⟩ := List.getLast?_eq_some_iff.1 hlast
  have hsorted : ((before ++ [m]) ++ rest).Pairwise (Before c) := hrest ▸ turn_sorted h
  obtain ⟨htaken, -, hcross⟩ := List.pairwise_append.1 hsorted
  have hnrest : n ∈ rest := by
    have hmem : n ∈ (before ++ [m]) ++ rest := hrest ▸ mem_turn.2 hn
    exact (List.mem_append.1 hmem).resolve_left hnot
  have hmn : Before c m n := hcross m (by simp) n hnrest
  have hto_m : ∀ t ∈ before ++ [m], t = m ∨ Before c t m := by
    intro t ht
    obtain ht | ht := List.mem_append.1 ht
    · exact .inr ((List.pairwise_append.1 htaken).2.2 t ht m (by simp))
    · exact .inl (List.mem_singleton.1 ht)
  have hnodup : (before ++ [m]).Nodup := by
    refine List.nodup_iff_pairwise_ne.2 (htaken.imp fun {x y} hxy heq => ?_)
    exact not_before_self c y (heq ▸ hxy)
  have hinU : ∀ t ∈ before ++ [m], t ∈ U := by
    intro t ht
    have hmem : t ∈ turn names c := hrest ▸ List.mem_append_left rest ht
    exact hU t (mem_turn.1 hmem)
  have hapart : Disjoint (ahead U (some m) n) (before ++ [m]).toFinset := by
    refine Finset.disjoint_left.2 fun u hu htaken => ?_
    have hmu := (before_of_moved hmn (Finset.mem_filter.1 hu).2).2
    obtain rfl | hum := hto_m u (List.mem_toFinset.1 htaken)
    · exact not_before_self c _ hmu
    · exact not_before_self c _ (hmu.trans hum)
  have hsub : ahead U (some m) n ∪ (before ++ [m]).toFinset ⊆ ahead U c n := by
    intro u hu
    obtain hu | hu := Finset.mem_union.1 hu
    · have hmoved := Finset.mem_filter.1 hu
      exact Finset.mem_filter.2 ⟨hmoved.1, (before_of_moved hmn hmoved.2).1⟩
    · have ht := List.mem_toFinset.1 hu
      exact Finset.mem_filter.2 ⟨hinU u ht, .inr (hcross u ht n hnrest)⟩
  calc (ahead U (some m) n).card + (before ++ [m]).length
      = (ahead U (some m) n ∪ (before ++ [m]).toFinset).card := by
        rw [Finset.card_union_of_disjoint hapart, List.toFinset_card_of_nodup hnodup]
    _ ≤ (ahead U c n).card := Finset.card_le_card hsub

/-- The element itself is ahead. -/
theorem card_ahead_pos (c : Option α) (hn : n ∈ U) : 0 < (ahead U c n).card :=
  Finset.card_pos.2 ⟨n, Finset.mem_filter.2 ⟨hn, .inl rfl⟩⟩

theorem card_ahead_le (U : Finset α) (c : Option α) (n : α) : (ahead U c n).card ≤ U.card :=
  Finset.card_filter_le U _

end RoundRobin

/-! ### Marks that are moved late -/

/-- **How much is ahead of a mark**, and of those that turns under way will move it to. -/
structure Marks where
  mark : ℕ
  late : List ℕ

namespace Marks

/-- **What happens to a mark.**  A turn begins at it and will leave less ahead; a turn moves the
mark; or it goes without. -/
inductive Step : Marks → Bool → Marks → Prop
  | begin {s : Marks} {k : ℕ} : k < s.mark → Step s false ⟨s.mark, k :: s.late⟩
  | move {s : Marks} {k : ℕ} {late : List ℕ} : s.late.Perm (k :: late) → Step s true ⟨k, late⟩
  | go {s : Marks} {k : ℕ} {late : List ℕ} : s.late.Perm (k :: late) → Step s false ⟨s.mark, late⟩

variable {s s' : Marks} {m k : ℕ} {late : List ℕ}

/-- How often a mark can be moved by one turn that starts where `d` is ahead, and by what comes of
it, when `m` turns may be under way at once. -/
def moves (m : ℕ) : ℕ → ℕ
  | 0 => 0
  | d + 1 => 1 + m * moves m d

/-- **What is left to pay moves with**: for each turn under way what comes of it, or what comes of
one that starts instead; for each that is not, what comes of one that starts. -/
def stock (m : ℕ) (s : Marks) : ℕ :=
  (s.late.map fun k => max (moves m (k + 1)) (moves m s.mark)).sum +
    (m - s.late.length) * moves m s.mark

theorem moves_le_succ (m d : ℕ) : moves m d ≤ moves m (d + 1) := by
  induction d with
  | zero => exact Nat.zero_le _
  | succ d ih => exact Nat.add_le_add_left (Nat.mul_le_mul_left m ih) 1

theorem moves_mono (m : ℕ) : Monotone (moves m) := monotone_nat_of_le_succ (moves_le_succ m)

/-- The moves of `m` turns from where `d` is ahead: with one turn at a time, `d`. -/
theorem mul_moves (m d : ℕ) : m * moves m d = ∑ i ∈ Finset.range d, m ^ (i + 1) := by
  induction d with
  | zero => rfl
  | succ d ih =>
    rw [moves, ih, Finset.sum_range_succ', Nat.mul_add, Finset.mul_sum]
    have hterm (i : ℕ) : m * m ^ (i + 1) = m ^ (i + 1 + 1) := by
      rw [pow_succ _ (i + 1), Nat.mul_comm]
    simp only [hterm, Nat.zero_add, pow_one, Nat.mul_one]
    exact Nat.add_comm ..

theorem stock_begin (hk : k < s.mark) (hm : s.late.length < m) :
    stock m ⟨s.mark, k :: s.late⟩ = stock m s := by
  have hmax : max (moves m (k + 1)) (moves m s.mark) = moves m s.mark :=
    max_eq_right (moves_mono m hk)
  obtain ⟨free, hfree⟩ := Nat.exists_eq_add_of_lt hm
  have hleft : m - s.late.length = free + 1 := by omega
  have hleft' : m - (s.late.length + 1) = free := by omega
  simp only [stock, List.map_cons, List.sum_cons, List.length_cons, hmax, hleft, hleft']
  ring

/-- The stock by one of the turns under way and the others. -/
theorem stock_eq (hperm : s.late.Perm (k :: late)) (hm : s.late.length ≤ m) :
    late.length + 1 ≤ m ∧
    stock m s = max (moves m (k + 1)) (moves m s.mark) +
      (late.map fun j => max (moves m (j + 1)) (moves m s.mark)).sum +
      (m - (late.length + 1)) * moves m s.mark := by
  have hlen : s.late.length = late.length + 1 := hperm.length_eq
  have hsum := (hperm.map fun j => max (moves m (j + 1)) (moves m s.mark)).sum_eq
  rw [List.map_cons, List.sum_cons] at hsum
  exact ⟨hlen ▸ hm, by rw [stock, hsum, hlen]⟩

theorem stock_go (hperm : s.late.Perm (k :: late)) (hm : s.late.length ≤ m) :
    stock m ⟨s.mark, late⟩ ≤ stock m s := by
  obtain ⟨hlate, heq⟩ := stock_eq hperm hm
  have hleft : m - late.length = (m - (late.length + 1)) + 1 := by omega
  have hmax := le_max_right (moves m (k + 1)) (moves m s.mark)
  calc stock m ⟨s.mark, late⟩
      = (late.map fun j => max (moves m (j + 1)) (moves m s.mark)).sum +
          ((m - (late.length + 1)) * moves m s.mark + moves m s.mark) := by
        rw [stock, hleft, Nat.add_mul, Nat.one_mul]
    _ ≤ stock m s := by omega

/-- **A move is paid for.** -/
theorem stock_move (hperm : s.late.Perm (k :: late)) (hm : s.late.length ≤ m) :
    stock m ⟨k, late⟩ + 1 ≤ stock m s := by
  obtain ⟨hlate, heq⟩ := stock_eq hperm hm
  have hothers (xs : List ℕ) :
      (xs.map fun j => max (moves m (j + 1)) (moves m k)).sum ≤
        (xs.map fun j => max (moves m (j + 1)) (moves m s.mark)).sum + xs.length * moves m k := by
    induction xs with
    | nil => exact Nat.zero_le _
    | cons j xs ih =>
      simp only [List.map_cons, List.sum_cons, List.length_cons, Nat.add_mul, Nat.one_mul]
      omega
  have hslots : late.length + (m - late.length) = m := by omega
  have hown : moves m (k + 1) ≤ max (moves m (k + 1)) (moves m s.mark) := le_max_left ..
  calc stock m ⟨k, late⟩ + 1
      ≤ (late.map fun j => max (moves m (j + 1)) (moves m s.mark)).sum +
          (late.length + (m - late.length)) * moves m k + 1 := by
        have := hothers late
        simp only [stock, Nat.add_mul]
        omega
    _ = (late.map fun j => max (moves m (j + 1)) (moves m s.mark)).sum + moves m (k + 1) := by
        rw [hslots, moves]
        omega
    _ ≤ stock m s := by omega

/-- **What a step pays**, with at most `m` turns under way. -/
theorem Step.stock_le {moved : Bool} (h : Step s moved s') (hm : s.late.length ≤ m)
    (hm' : s'.late.length ≤ m) : stock m s' + moved.toNat ≤ stock m s := by
  cases h with
  | begin hk => exact (stock_begin hk hm').le
  | move hperm => exact stock_move hperm hm
  | go hperm => exact stock_go hperm hm

end Marks

end Basis
end LaneBroker
