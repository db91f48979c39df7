/-
# What `rewritePrefixes` writes

The loop of `rewritePrefixes` looks with `indexOf` for the first place where one of the paths
stands, and takes the first of the paths there in an order by length.  What comes out is one
substitution from left to right that takes the longest path at each place
(`rewritePrefixes_eq`), or nothing when an occurrence is not accepted.
-/

import LaneBroker.Caches.StoredTree
import LaneBroker.Basis.Results

namespace LaneBroker
namespace Caches
namespace DepsStore

open LaneBroker.Basis
open LaneBroker.Basis.Substitution (Piece longest cut render substitute)

/-! ### `indexOf` -/

/-- What `indexOf` finds, and that it stands nowhere before. -/
theorem indexFrom_eq_some {needle buf : List UInt8} {last idx : Nat} (hne : needle ≠ [])
    (h : indexFrom needle buf last = some idx) :
    ∃ gap rest, buf = gap ++ (needle ++ rest) ∧ idx = last + gap.length ∧
      ∀ post, post ≠ [] → post <:+ gap → ¬ needle <+: post ++ (needle ++ rest) := by
  induction buf generalizing last with
  | nil => simp [indexFrom, hne] at h
  | cons b buf ih =>
    rw [indexFrom] at h
    split_ifs at h with hpre
    · obtain ⟨rest, hrest⟩ := List.isPrefixOf_iff_prefix.1 hpre
      refine ⟨[], rest, hrest.symm, (Option.some.inj h).symm, fun post hpost hsuf => ?_⟩
      exact absurd (List.suffix_nil.1 hsuf) hpost
    · obtain ⟨gap, rest, rfl, rfl, hgap⟩ := ih h
      refine ⟨b :: gap, rest, rfl, by simp; omega, fun post hpost hsuf => ?_⟩
      rcases List.suffix_cons_iff.1 hsuf with rfl | hsuf
      · intro hin
        exact hpre (List.isPrefixOf_iff_prefix.2 hin)
      · exact hgap post hpost hsuf

/-- Where the needle stands, `indexOf` finds it or an earlier place. -/
theorem exists_indexFrom {needle rest : List UInt8} (gap : List UInt8) (last : Nat)
    (h : needle <+: rest) :
    ∃ idx, indexFrom needle (gap ++ rest) last = some idx ∧ idx ≤ last + gap.length := by
  induction gap generalizing last with
  | nil =>
    rw [List.nil_append]
    cases rest with
    | nil =>
      obtain rfl := List.prefix_nil.1 h
      exact ⟨last, by simp [indexFrom], by simp⟩
    | cons b rest =>
      refine ⟨last, ?_, by simp⟩
      rw [indexFrom, if_pos (List.isPrefixOf_iff_prefix.2 h)]
  | cons b gap ih =>
    rw [List.cons_append, indexFrom]
    split_ifs
    · exact ⟨last, rfl, by simp⟩
    · obtain ⟨idx, hidx, hle⟩ := ih (last + 1)
      exact ⟨idx, hidx, by simp only [List.length_cons]; omega⟩

/-! ### The next hit -/

/-- Where the old text of a pair stands. -/
def hitOf (buf : List UInt8) (last : Nat) (pair : Pair) : Option Nat :=
  indexFrom pair.old (buf.drop last) last

theorem nextHit_concat (ordered : List Pair) (p : Pair) (buf : List UInt8) (last : Nat) :
    nextHit (ordered ++ [p]) buf last =
      (hitOf buf last p).elim (nextHit ordered buf last) fun idx =>
        (nextHit ordered buf last).elim (some (idx, p)) fun hit =>
          if idx < hit.1 then some (idx, p) else nextHit ordered buf last := by
  rw [nextHit, List.foldl_append, List.foldl_cons, List.foldl_nil, hitOf]
  cases indexFrom p.old (buf.drop last) last with
  | none => rfl
  | some idx =>
    change _ = (nextHit ordered buf last).elim _ _
    rw [nextHit]
    cases List.foldl _ none ordered with
    | none => rfl
    | some hit => rfl

/-- **The first pair among those that occur first**, or that none occurs. -/
theorem nextHit_spec (ordered : List Pair) (buf : List UInt8) (last : Nat) :
    match nextHit ordered buf last with
    | none => ∀ p ∈ ordered, hitOf buf last p = none
    | some (idx, pair) => ∃ before after, ordered = before ++ pair :: after ∧
        hitOf buf last pair = some idx ∧
        (∀ p ∈ before, ∀ j, hitOf buf last p = some j → idx < j) ∧
        ∀ p ∈ after, ∀ j, hitOf buf last p = some j → idx ≤ j := by
  induction ordered using List.reverseRecOn with
  | nil => exact fun p hp => (by cases hp)
  | append_singleton ordered p ih =>
    rw [nextHit_concat]
    cases hp : hitOf buf last p with
    | none =>
      rw [Option.elim_none]
      cases hbest : nextHit ordered buf last with
      | none =>
        rw [hbest] at ih
        dsimp only at ih ⊢
        intro q hq
        rcases List.mem_append.1 hq with hq | hq
        · exact ih q hq
        · rw [List.mem_singleton.1 hq]
          exact hp
      | some hit =>
        obtain ⟨idx, pair⟩ := hit
        rw [hbest] at ih
        obtain ⟨before, after, rfl, hhit, hbefore, hafter⟩ := ih
        refine ⟨before, after ++ [p], by simp, hhit, hbefore, fun q hq j hj => ?_⟩
        rcases List.mem_append.1 hq with hq | hq
        · exact hafter q hq j hj
        · rw [List.mem_singleton.1 hq, hp] at hj
          cases hj
    | some idx' =>
      rw [Option.elim_some]
      cases hbest : nextHit ordered buf last with
      | none =>
        rw [hbest] at ih
        refine ⟨ordered, [], by simp, hp, fun q hq j hj => ?_, by simp⟩
        rw [ih q hq] at hj
        cases hj
      | some hit =>
        obtain ⟨idx, pair⟩ := hit
        rw [hbest] at ih
        obtain ⟨before, after, rfl, hhit, hbefore, hafter⟩ := ih
        rw [Option.elim_some]
        by_cases hlt : idx' < idx
        · rw [if_pos hlt]
          refine ⟨before ++ pair :: after, [], by simp, hp, fun q hq j hj => ?_, by simp⟩
          rcases List.mem_append.1 hq with hq | hq
          · exact hlt.trans (hbefore q hq j hj)
          · rcases List.mem_cons.1 hq with rfl | hq
            · rw [hhit] at hj
              rwa [← Option.some.inj hj]
            · exact hlt.trans_le (hafter q hq j hj)
        · rw [if_neg hlt]
          refine ⟨before, after ++ [p], by simp, hhit, hbefore, fun q hq j hj => ?_⟩
          rcases List.mem_append.1 hq with hq | hq
          · exact hafter q hq j hj
          · rw [List.mem_singleton.1 hq, hp] at hj
            rw [← Option.some.inj hj]
            omega

/-! ### The loop -/

/-- What the pairs put in the place of a text. -/
def newOf (pairs : List Pair) (old : List UInt8) : List UInt8 :=
  ((pairs.find? fun p => p.old == old).map Pair.new).getD []

/-- **Every word of a text that is cut up is accepted**, from a place of the buffer on. -/
def accepted (accept : List UInt8 → Nat → Nat → Bool) (buf : List UInt8) :
    Nat → List (Piece UInt8) → Bool
  | _, [] => true
  | i, .keep _ :: ps => accepted accept buf (i + 1) ps
  | i, .word w :: ps => accept buf i (i + w.length) && accepted accept buf (i + w.length) ps

theorem accepted_map_keep {accept : List UInt8 → Nat → Nat → Bool} {buf gap : List UInt8}
    {i : Nat} {ps : List (Piece UInt8)} :
    accepted accept buf i (gap.map .keep ++ ps) = accepted accept buf (i + gap.length) ps := by
  induction gap generalizing i with
  | nil => rfl
  | cons b gap ih =>
    rw [List.map_cons, List.cons_append, accepted, ih, List.length_cons]
    congr 1
    omega

theorem newOf_of_mem {pairs : List Pair} (hnodup : (pairs.map Pair.old).Nodup) {p : Pair}
    (hp : p ∈ pairs) : newOf pairs p.old = p.new := by
  induction pairs with
  | nil => cases hp
  | cons q pairs ih =>
    rw [List.map_cons, List.nodup_cons] at hnodup
    rcases List.mem_cons.1 hp with rfl | hp
    · simp [newOf]
    · have hne : q.old ≠ p.old := fun heq => hnodup.1 (heq ▸ List.mem_map_of_mem hp)
      rw [← ih hnodup.2 hp]
      simp [newOf, hne]

/-- A pair that comes after another in the order is no longer. -/
theorem pairwise_longestFirst (pairs : List Pair) :
    (longestFirst pairs).Pairwise fun a b => b.old.length ≤ a.old.length := by
  have : Std.Total fun a b : Pair => b.old.length ≤ a.old.length := ⟨fun a b => le_total _ _⟩
  have : IsTrans Pair fun a b => b.old.length ≤ a.old.length := ⟨fun a b c h h' => h'.trans h⟩
  exact List.pairwise_insertionSort _ pairs

/-- One round of the loop is one word of the text. -/
theorem cut_nextHit {ordered : List Pair} (hold : ∀ p ∈ ordered, p.old ≠ [])
    (hsorted : ordered.Pairwise fun a b => b.old.length ≤ a.old.length) {buf : List UInt8}
    {last idx : Nat} {pair : Pair} (h : nextHit ordered buf last = some (idx, pair)) :
    pair ∈ ordered ∧ ∃ gap rest, buf.drop last = gap ++ (pair.old ++ rest) ∧
      idx = last + gap.length ∧
      cut (ordered.map Pair.old) (buf.drop last) =
        gap.map .keep ++ .word pair.old :: cut (ordered.map Pair.old) rest := by
  have hspec := nextHit_spec ordered buf last
  rw [h] at hspec
  obtain ⟨before, after, hordered, hhit, hbefore, hafter⟩ := hspec
  have hpair : pair ∈ ordered := by simp [hordered]
  obtain ⟨gap, rest, hbuf, hidx, hgap⟩ := indexFrom_eq_some (hold pair hpair) hhit
  refine ⟨hpair, gap, rest, hbuf, hidx, ?_⟩
  have hfirst : ∀ p ∈ ordered, ∀ j, hitOf buf last p = some j → idx ≤ j := by
    intro p hp j hj
    rw [hordered] at hp
    rcases List.mem_append.1 hp with hp | hp
    · exact (hbefore p hp j hj).le
    · rcases List.mem_cons.1 hp with rfl | hp
      · rw [hhit] at hj
        exact (Option.some.inj hj).le
      · exact hafter p hp j hj
  rw [hbuf, Substitution.cut_append, Substitution.cut_word]
  · rw [Substitution.longest_eq_some_iff]
    refine ⟨List.mem_map_of_mem hpair, hold pair hpair, List.prefix_append _ _, ?_⟩
    intro w hw _ hpre
    obtain ⟨p, hp, rfl⟩ := List.mem_map.1 hw
    obtain ⟨j, hj, hle⟩ := exists_indexFrom gap last hpre
    rw [← hbuf] at hj
    rw [hordered] at hp hsorted
    rcases List.mem_append.1 hp with hp | hp
    · have := hbefore p hp j hj
      omega
    · rcases List.mem_cons.1 hp with rfl | hp
      · exact le_rfl
      · exact (List.pairwise_cons.1 (List.pairwise_append.1 hsorted).2.1).1 p hp
  · intro post hpost hsuf
    rw [Substitution.longest_eq_none_iff]
    intro w hw _ hpre
    obtain ⟨p, hp, rfl⟩ := List.mem_map.1 hw
    obtain ⟨front, rfl⟩ := hsuf
    obtain ⟨j, hj, hle⟩ := exists_indexFrom front last hpre
    rw [← List.append_assoc, ← hbuf] at hj
    have hmin := hfirst p hp j hj
    have hpos := List.length_pos_iff.2 hpost
    rw [List.length_append] at hidx
    omega

theorem cut_of_nextHit_none {ordered : List Pair} {buf : List UInt8} {last : Nat}
    (h : nextHit ordered buf last = none) :
    cut (ordered.map Pair.old) (buf.drop last) = (buf.drop last).map .keep := by
  have hspec := nextHit_spec ordered buf last
  rw [h] at hspec
  have : cut (ordered.map Pair.old) (buf.drop last ++ []) = (buf.drop last).map .keep ++
      cut (ordered.map Pair.old) [] :=
    Substitution.cut_append fun post _ hsuf => by
      rw [Substitution.longest_eq_none_iff]
      intro w hw _ hpre
      obtain ⟨p, hp, rfl⟩ := List.mem_map.1 hw
      obtain ⟨front, hfront⟩ := hsuf
      rw [List.append_nil] at hpre
      obtain ⟨j, hj, -⟩ := exists_indexFrom front last hpre
      rw [hfront] at hj
      cases hj.symm.trans (hspec p hp)
  simpa [cut] using this

/-- **The loop from a place on.** -/
theorem rewriteFrom_eq {ordered : List Pair} (hold : ∀ p ∈ ordered, p.old ≠ [])
    (hnodup : (ordered.map Pair.old).Nodup)
    (hsorted : ordered.Pairwise fun a b => b.old.length ≤ a.old.length)
    (accept : List UInt8 → Nat → Nat → Bool) (buf : List UInt8) {rounds last : Nat}
    (hrounds : buf.length - last < rounds) :
    rewriteFrom ordered accept buf rounds last =
      if accepted accept buf last (cut (ordered.map Pair.old) (buf.drop last)) then
        some (substitute (ordered.map Pair.old) (newOf ordered) (buf.drop last))
      else none := by
  induction rounds generalizing last with
  | zero => omega
  | succ rounds ih =>
    rw [rewriteFrom]
    cases hhit : nextHit ordered buf last with
    | none =>
      have hcut := cut_of_nextHit_none hhit
      have hacc : accepted accept buf last ((buf.drop last).map .keep ++ []) =
          accepted accept buf (last + (buf.drop last).length) [] := accepted_map_keep
      rw [List.append_nil] at hacc
      rw [substitute, hcut, hacc, Substitution.render_map_keep]
      simp [accepted]
    | some hit =>
      obtain ⟨idx, pair⟩ := hit
      obtain ⟨hpair, gap, rest, hbuf, rfl, hcut⟩ := cut_nextHit hold hsorted hhit
      have hpos := List.length_pos_iff.2 (hold pair hpair)
      have hlen : buf.length - last = gap.length + (pair.old.length + rest.length) := by
        rw [← List.length_drop, hbuf, List.length_append, List.length_append]
      have hdrop : buf.drop (last + gap.length + pair.old.length) = rest := by
        rw [← List.drop_drop, ← List.drop_drop, hbuf, List.drop_left, List.drop_left]
      have hnext := @ih (last + gap.length + pair.old.length) (by omega)
      rw [hdrop] at hnext
      have htake : (buf.drop last).take (last + gap.length - last) = gap := by
        rw [Nat.add_sub_cancel_left, hbuf, List.take_left]
      dsimp only
      rw [hnext, substitute, substitute, hcut, accepted_map_keep, accepted, htake,
        Substitution.render_append, Substitution.render_map_keep, render,
        newOf_of_mem hnodup hpair]
      cases accept buf (last + gap.length) (last + gap.length + pair.old.length)
      · rfl
      · rw [if_pos rfl, Bool.true_and]
        split_ifs
        · rfl
        · rfl

/-- **What `rewritePrefixes` does**: one substitution, if every occurrence is accepted. -/
theorem rewritePrefixes_eq {pairs : List Pair} (hold : ∀ p ∈ pairs, p.old ≠ [])
    (hnodup : (pairs.map Pair.old).Nodup) (accept : List UInt8 → Nat → Nat → Bool)
    (buf : List UInt8) :
    rewritePrefixes buf pairs accept =
      if accepted accept buf 0 (cut (pairs.map Pair.old) buf) then
        some (substitute (pairs.map Pair.old) (newOf pairs) buf)
      else none := by
  have hperm : (longestFirst pairs).Perm pairs := List.perm_insertionSort _ pairs
  have hmap : ((longestFirst pairs).map Pair.old).Perm (pairs.map Pair.old) := hperm.map _
  have hcut : cut ((longestFirst pairs).map Pair.old) buf = cut (pairs.map Pair.old) buf :=
    Substitution.cut_congr fun w _ => hmap.mem_iff
  have hnodup' := hmap.nodup_iff.2 hnodup
  have h := rewriteFrom_eq (fun p hp => hold p (hperm.mem_iff.1 hp)) hnodup'
    (pairwise_longestFirst pairs) accept buf (Nat.lt_succ_of_le (Nat.sub_le buf.length 0))
  rw [List.drop_zero, substitute, hcut] at h
  rw [rewritePrefixes, h, substitute]
  congr 2
  refine Substitution.render_congr fun w hw => ?_
  obtain ⟨p, hp, rfl⟩ := List.mem_map.1 (Substitution.mem_of_word_mem hw)
  rw [newOf_of_mem hnodup hp, newOf_of_mem hnodup' (hperm.mem_iff.2 hp)]

/-! ### What is accepted -/

theorem accepted_anywhere (buf : List UInt8) (i : Nat) (ps : List (Piece UInt8)) :
    accepted anywhere buf i ps = true := by
  induction ps generalizing i with
  | nil => rfl
  | cons p ps ih =>
    cases p with
    | keep a => exact ih (i + 1)
    | word w => exact ih (i + w.length)

theorem strict_of_anchored {buf : List UInt8} {start stop : Nat}
    (h : anchoredOccurrence buf start stop = true) : strictOccurrence buf start stop = true := by
  simp only [anchoredOccurrence, strictOccurrence, Bool.and_eq_true, Bool.or_eq_true,
    beq_iff_eq] at h ⊢
  refine ⟨.inl h.1, h.2.imp_right fun hslash => ?_⟩
  rw [hslash]
  rfl

theorem accepted_strict_of_anchored {buf : List UInt8} {i : Nat} {ps : List (Piece UInt8)}
    (h : accepted anchoredOccurrence buf i ps = true) :
    accepted strictOccurrence buf i ps = true := by
  induction ps generalizing i with
  | nil => rfl
  | cons p ps ih =>
    cases p with
    | keep a => exact ih h
    | word w =>
      rw [accepted, Bool.and_eq_true] at h ⊢
      exact ⟨strict_of_anchored h.1, ih h.2⟩

/-- A byte that may stand before an install path. -/
def Leads (b : UInt8) : Prop := pathLeaders.contains b = true

/-- **Where every occurrence is strict, a path stands after a leader.** -/
theorem delimited_of_accepted {buf : List UInt8} {i : Nat} {ps : List (Piece UInt8)}
    (hps : buf.drop i = render id ps) (h : accepted strictOccurrence buf i ps = true) :
    Substitution.Delimited Leads ps := by
  induction ps generalizing i with
  | nil =>
    intro a w hin
    simp at hin
  | cons p ps ih =>
    cases p with
    | word v =>
      rw [accepted, Bool.and_eq_true] at h
      have hrest : buf.drop (i + v.length) = render id ps := by
        rw [← List.drop_drop, hps, render, id, List.drop_left]
      intro a w hin
      rcases List.infix_cons_iff.1 hin with hpre | hin
      · obtain ⟨hhead, -⟩ := List.cons_prefix_cons.1 hpre
        cases hhead
      · exact ih hrest h.2 a w hin
    | keep b =>
      rw [accepted] at h
      have hrest : buf.drop (i + 1) = render id ps := by
        rw [← List.drop_drop, hps, render, List.drop_one, List.tail_cons]
      intro a w hin
      rcases List.infix_cons_iff.1 hin with hpre | hin
      · obtain ⟨hhead, hpre⟩ := List.cons_prefix_cons.1 hpre
        obtain ⟨qs, rfl⟩ := hpre
        obtain rfl := Piece.keep.inj hhead
        rw [List.singleton_append, accepted, Bool.and_eq_true, strictOccurrence,
          Bool.and_eq_true] at h
        have hat : buf[i]? = some a := by
          rw [← List.head?_drop, hps, render, List.head?_cons]
        simpa [hat, Leads] using h.1.1
      · exact ih hrest h a w hin

/-- **Where every occurrence is anchored, a path stands at the front or nowhere.** -/
theorem anchored_shape {buf : List UInt8} {ps : List (Piece UInt8)}
    (hne : ∀ w, .word w ∈ ps → w ≠ []) (h : accepted anchoredOccurrence buf 0 ps = true) :
    (∃ gap : List UInt8, ps = gap.map .keep) ∨
      ∃ (w : List UInt8) (gap : List UInt8), ps = .word w :: gap.map .keep := by
  have hlater : ∀ i qs, 0 < i → accepted anchoredOccurrence buf i qs = true →
      ∃ gap : List UInt8, qs = gap.map .keep := by
    intro i qs
    induction qs generalizing i with
    | nil => exact fun _ _ => ⟨[], rfl⟩
    | cons p qs ih =>
      intro hi hacc
      cases p with
      | keep a =>
        obtain ⟨gap, rfl⟩ := ih (i + 1) (by omega) hacc
        exact ⟨a :: gap, rfl⟩
      | word w =>
        rw [accepted, Bool.and_eq_true, anchoredOccurrence, Bool.and_eq_true, beq_iff_eq] at hacc
        omega
  cases ps with
  | nil => exact .inl ⟨[], rfl⟩
  | cons p ps =>
    cases p with
    | keep a =>
      obtain ⟨gap, rfl⟩ := hlater 1 ps (by omega) h
      exact .inl ⟨a :: gap, rfl⟩
    | word w =>
      have hpos := List.length_pos_iff.2 (hne w List.mem_cons_self)
      rw [accepted, Bool.and_eq_true] at h
      obtain ⟨gap, rfl⟩ := hlater (0 + w.length) ps (by omega) h.2
      exact .inr ⟨w, gap, rfl⟩

/-! ### Looking at files -/

theorem le_longestNeedle {needles : List (List UInt8)} {n : List UInt8} (hn : n ∈ needles) :
    n.length ≤ longestNeedle needles + 1 := by
  have hmax : ∀ (ls : List Nat) (m : Nat), m ≤ ls.foldl max m ∧ ∀ x ∈ ls, x ≤ ls.foldl max m := by
    intro ls
    induction ls with
    | nil => exact fun m => ⟨le_rfl, nofun⟩
    | cons x ls ih =>
      intro m
      obtain ⟨hle, hall⟩ := ih (max m x)
      refine ⟨(le_max_left m x).trans hle, List.forall_mem_cons.2 ⟨?_, hall⟩⟩
      exact (le_max_right m x).trans hle
  have := (hmax (needles.map List.length) 0).2 n.length (List.mem_map_of_mem hn)
  unfold longestNeedle
  omega

theorem includes_iff {buf needle : List UInt8} : includes buf needle = true ↔ needle <:+: buf := by
  rw [includes, decide_eq_true_iff]

/-- **A needle is seen in a window just when the file holds it.** -/
theorem eachWindow_iff {content needle : List UInt8} {overlap : Nat} (hne : needle ≠ [])
    (hlen : needle.length ≤ overlap + 1) :
    ((eachWindow content overlap).any fun window => includes window needle) = true ↔
      needle <:+: content := by
  unfold eachWindow
  split_ifs
  · simp [includes_iff]
  · rw [List.any_eq_true]
    simp only [includes_iff]
    rw [Substitution.exists_window_iff hne hlen, Substitution.flatten_chunks (by decide)]

theorem fileContains_iff {content : List UInt8} {needles : List (List UInt8)}
    (hne : ∀ n ∈ needles, n ≠ []) :
    fileContains content needles = true ↔ ∃ n ∈ needles, n <:+: content := by
  unfold fileContains
  rw [List.any_eq_true]
  constructor
  · rintro ⟨window, hwindow, hany⟩
    obtain ⟨n, hn, hin⟩ := List.any_eq_true.1 hany
    refine ⟨n, hn, (eachWindow_iff (hne n hn) (le_longestNeedle hn)).1 ?_⟩
    exact List.any_eq_true.2 ⟨window, hwindow, hin⟩
  · rintro ⟨n, hn, hin⟩
    obtain ⟨window, hwindow, hseen⟩ := List.any_eq_true.1
      ((eachWindow_iff (hne n hn) (le_longestNeedle hn)).2 hin)
    exact ⟨window, hwindow, List.any_eq_true.2 ⟨n, hn, hseen⟩⟩

theorem mem_fileNeedleHits_iff {content n : List UInt8} {needles : List (List UInt8)}
    (hne : ∀ n ∈ needles, n ≠ []) :
    n ∈ fileNeedleHits content needles ↔ n ∈ needles ∧ n <:+: content := by
  unfold fileNeedleHits
  rw [List.mem_filter]
  refine and_congr_right fun hn => ?_
  exact eachWindow_iff (hne n hn) (le_longestNeedle hn)

end DepsStore
end Caches
end LaneBroker
