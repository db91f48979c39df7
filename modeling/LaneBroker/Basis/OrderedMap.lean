/-
# Maps in insertion order

A map that is walked in the order in which its keys were first set: setting a key that is there
keeps its place, and a new key comes last.  No key is there twice (`OrderedMap.nodup`), so that what
a key holds and what the entries say are one thing (`get_eq_some_iff`).  Setting a key leaves the
entries of the others (`mem_set_iff`).
-/

import Mathlib.Data.List.Nodup

namespace LaneBroker
namespace Basis

/-- **A map in insertion order**: its entries, no two of them of one key. -/
structure OrderedMap (κ β : Type) where
  entries : List (κ × β)
  nodup : (entries.map Prod.fst).Nodup

namespace OrderedMap

variable {κ β : Type} [DecidableEq κ]

/-- The entries after a key is set: in its place if it is there, else at the end. -/
def setIn (k : κ) (b : β) : List (κ × β) → List (κ × β)
  | [] => [(k, b)]
  | e :: es => if e.1 = k then (k, b) :: es else e :: setIn k b es

theorem mem_setIn_keys (k x : κ) (b : β) (es : List (κ × β)) :
    x ∈ (setIn k b es).map Prod.fst ↔ x = k ∨ x ∈ es.map Prod.fst := by
  induction es with
  | nil => simp [setIn]
  | cons e es ih =>
    by_cases he : e.1 = k
    · rw [setIn, if_pos he, List.map_cons, List.map_cons, List.mem_cons, List.mem_cons, he]
      show x = k ∨ _ ↔ _
      tauto
    · rw [setIn, if_neg he, List.map_cons, List.map_cons, List.mem_cons, List.mem_cons, ih]
      tauto

theorem nodup_setIn (k : κ) (b : β) (es : List (κ × β)) (h : (es.map Prod.fst).Nodup) :
    ((setIn k b es).map Prod.fst).Nodup := by
  induction es with
  | nil => simp [setIn]
  | cons e es ih =>
    obtain ⟨hhead, htail⟩ := List.nodup_cons.1 h
    by_cases he : e.1 = k
    · rw [setIn, if_pos he]
      exact List.nodup_cons.2 ⟨he ▸ hhead, htail⟩
    · rw [setIn, if_neg he]
      refine List.nodup_cons.2 ⟨fun hmem => ?_, ih htail⟩
      obtain hk | hmem := (mem_setIn_keys k e.1 b es).1 hmem
      · exact he hk
      · exact hhead hmem

theorem mem_setIn_iff (k : κ) (b : β) (es : List (κ × β)) (h : (es.map Prod.fst).Nodup)
    (x : κ × β) : x ∈ setIn k b es ↔ x = (k, b) ∨ x ∈ es ∧ x.1 ≠ k := by
  induction es with
  | nil => simp [setIn]
  | cons e es ih =>
    obtain ⟨hhead, htail⟩ := List.nodup_cons.1 h
    by_cases he : e.1 = k
    · have hother : ∀ y ∈ es, y.1 ≠ k := fun y hy hk =>
        hhead (he.trans hk.symm ▸ List.mem_map_of_mem hy)
      rw [setIn, if_pos he, List.mem_cons, List.mem_cons]
      constructor
      · rintro (hx | hx)
        · exact .inl hx
        · exact .inr ⟨.inr hx, hother x hx⟩
      · rintro (hx | ⟨rfl | hx, hk⟩)
        · exact .inl hx
        · exact absurd he hk
        · exact .inr hx
    · rw [setIn, if_neg he, List.mem_cons, List.mem_cons, ih htail]
      constructor
      · rintro (rfl | hx | ⟨hx, hk⟩)
        · exact .inr ⟨.inl rfl, he⟩
        · exact .inl hx
        · exact .inr ⟨.inr hx, hk⟩
      · rintro (hx | ⟨hx | hx, hk⟩)
        · exact .inr (.inl hx)
        · exact .inl hx
        · exact .inr (.inr ⟨hx, hk⟩)

def empty : OrderedMap κ β := ⟨[], List.nodup_nil⟩

/-- **Set a key.** -/
def set (m : OrderedMap κ β) (k : κ) (b : β) : OrderedMap κ β :=
  ⟨setIn k b m.entries, nodup_setIn k b m.entries m.nodup⟩

/-- **What a key holds.** -/
def get (m : OrderedMap κ β) (k : κ) : Option β :=
  (m.entries.find? fun e => e.1 = k).map Prod.snd

theorem mem_set_iff {m : OrderedMap κ β} {k : κ} {b : β} {x : κ × β} :
    x ∈ (m.set k b).entries ↔ x = (k, b) ∨ x ∈ m.entries ∧ x.1 ≠ k :=
  mem_setIn_iff k b m.entries m.nodup x

theorem mem_set_self (m : OrderedMap κ β) (k : κ) (b : β) : (k, b) ∈ (m.set k b).entries :=
  mem_set_iff.2 (.inl rfl)

omit [DecidableEq κ] in
/-- A key holds one thing. -/
theorem eq_of_mem {m : OrderedMap κ β} {k : κ} {b b' : β} (h : (k, b) ∈ m.entries)
    (h' : (k, b') ∈ m.entries) : b = b' :=
  congrArg Prod.snd (List.inj_on_of_nodup_map m.nodup h h' rfl)

/-- **What a key holds and what the entries say are one thing.** -/
theorem get_eq_some_iff {m : OrderedMap κ β} {k : κ} {b : β} :
    m.get k = some b ↔ (k, b) ∈ m.entries := by
  constructor
  · intro h
    obtain ⟨e, he, rfl⟩ := Option.map_eq_some_iff.1 h
    have hk : e.1 = k := by simpa using List.find?_some he
    exact hk ▸ List.mem_of_find?_eq_some he
  · intro h
    obtain ⟨e, he⟩ : ∃ e, (m.entries.find? fun e => e.1 = k) = some e :=
      Option.isSome_iff_exists.1 (List.find?_isSome.2 ⟨(k, b), h, by simp⟩)
    have hk : e.1 = k := by simpa using List.find?_some he
    have hb : (k, e.2) ∈ m.entries := hk ▸ List.mem_of_find?_eq_some he
    rw [get, he, Option.map_some, eq_of_mem hb h]

/-- **Set the keys of a list, in its order.** -/
def setAll (m : OrderedMap κ β) (es : List (κ × β)) : OrderedMap κ β :=
  es.foldl (fun m e => m.set e.1 e.2) m

/-- What is set from entries of distinct keys is there, beside what was there of other keys. -/
theorem mem_setAll_iff {es : List (κ × β)} (h : (es.map Prod.fst).Nodup) (m : OrderedMap κ β)
    (x : κ × β) :
    x ∈ (m.setAll es).entries ↔ x ∈ es ∨ x ∈ m.entries ∧ x.1 ∉ es.map Prod.fst := by
  induction es generalizing m with
  | nil => simp [setAll]
  | cons e es ih =>
    obtain ⟨hhead, htail⟩ := List.nodup_cons.1 h
    show x ∈ ((m.set e.1 e.2).setAll es).entries ↔ _
    rw [ih htail, mem_set_iff, List.map_cons, List.mem_cons, List.mem_cons, not_or]
    constructor
    · rintro (hx | ⟨rfl | ⟨hx, hk⟩, hnot⟩)
      · exact .inl (.inr hx)
      · exact .inl (.inl rfl)
      · exact .inr ⟨hx, hk, hnot⟩
    · rintro ((rfl | hx) | ⟨hx, hk, hnot⟩)
      · exact .inr ⟨.inl rfl, hhead⟩
      · exact .inl hx
      · exact .inr ⟨.inr ⟨hx, hk⟩, hnot⟩

theorem get_set (m : OrderedMap κ β) (k : κ) (b : β) (x : κ) :
    (m.set k b).get x = if x = k then some b else m.get x := by
  refine Option.ext fun c => ?_
  rw [get_eq_some_iff, mem_set_iff]
  by_cases hx : x = k
  · rw [if_pos hx, hx]
    simp [eq_comm]
  · rw [if_neg hx, get_eq_some_iff]
    simp [hx]

/-- **What is written key by key, each to a value of its own, is what is read then**, of anything
that is read and written like a map. -/
theorem read_foldl_write {σ : Type} {read : σ → κ → Option β} {write : σ → κ → β → σ}
    (hwrite : ∀ s k b x, read (write s k b) x = if x = k then some b else read s x) (f : κ → β)
    (ks : List κ) (s : σ) (x : κ) :
    read (ks.foldl (fun s k => write s k (f k)) s) x = if x ∈ ks then some (f x) else read s x := by
  induction ks generalizing s with
  | nil => rfl
  | cons k ks ih =>
    rw [List.foldl_cons, ih, hwrite]
    by_cases hx : x ∈ ks
    · rw [if_pos hx, if_pos (List.mem_cons_of_mem k hx)]
    · by_cases hk : x = k
      · rw [if_neg hx, if_pos hk, if_pos (hk ▸ List.mem_cons_self), hk]
      · rw [if_neg hx, if_neg hk, if_neg (by simp [hx, hk])]

omit [DecidableEq κ] in
/-- **Change what each key holds.** -/
def mapValues {γ : Type} (f : β → γ) (m : OrderedMap κ β) : OrderedMap κ γ where
  entries := m.entries.map fun e => (e.1, f e.2)
  nodup := by
    rw [List.map_map]
    exact m.nodup

theorem get_mapValues {γ : Type} (f : β → γ) (m : OrderedMap κ β) (k : κ) :
    (m.mapValues f).get k = (m.get k).map f := by
  rw [get, get, mapValues, List.find?_map, Option.map_map, Option.map_map]
  rfl

/-- **Put a value behind those of its key.** -/
def gather (m : OrderedMap κ (List β)) (p : κ × β) : OrderedMap κ (List β) :=
  m.set p.1 ((m.get p.1).getD [] ++ [p.2])

/-- **Values by key**, in the order in which they come. -/
def groups (ps : List (κ × β)) : OrderedMap κ (List β) := ps.foldl gather empty

/-- The values of a key. -/
def valuesOf (k : κ) (ps : List (κ × β)) : List β :=
  (ps.filter fun p => p.1 = k).map Prod.snd

theorem mem_valuesOf_iff {k : κ} {b : β} {ps : List (κ × β)} :
    b ∈ valuesOf k ps ↔ (k, b) ∈ ps := by
  rw [valuesOf, List.mem_map]
  constructor
  · rintro ⟨⟨k', b'⟩, hmem, rfl⟩
    obtain ⟨hmem, hk⟩ := List.mem_filter.1 hmem
    rwa [← of_decide_eq_true hk]
  · exact fun h => ⟨(k, b), List.mem_filter.2 ⟨h, decide_eq_true rfl⟩, rfl⟩

theorem get_foldl_gather (ps : List (κ × β)) (m : OrderedMap κ (List β)) (k : κ) :
    (ps.foldl gather m).get k =
      if valuesOf k ps = [] then m.get k else some ((m.get k).getD [] ++ valuesOf k ps) := by
  induction ps generalizing m with
  | nil => simp [valuesOf]
  | cons p ps ih =>
    rw [List.foldl_cons, ih, gather, get_set]
    by_cases hk : p.1 = k
    · have hcons : valuesOf k (p :: ps) = p.2 :: valuesOf k ps := by simp [valuesOf, hk]
      rw [hcons, if_pos hk.symm, if_neg (List.cons_ne_nil _ _), hk]
      split_ifs with hnil
      · rw [hnil]
      · rw [Option.getD_some, List.append_assoc, List.singleton_append]
    · have hcons : valuesOf k (p :: ps) = valuesOf k ps := by simp [valuesOf, hk]
      rw [hcons, if_neg (Ne.symm hk)]

/-- **A key has the values that came with it**, and is there if any did. -/
theorem mem_groups_iff {ps : List (κ × β)} {k : κ} {bs : List β} :
    (k, bs) ∈ (groups ps).entries ↔ bs = valuesOf k ps ∧ bs ≠ [] := by
  have hempty : (empty : OrderedMap κ (List β)).get k = none := rfl
  rw [← get_eq_some_iff, groups, get_foldl_gather, hempty]
  split_ifs with hnil
  · rw [hnil]
    exact ⟨fun h => (nomatch h), fun h => absurd h.1 h.2⟩
  · rw [Option.getD_none, List.nil_append, Option.some.injEq]
    exact ⟨fun h => ⟨h.symm, h ▸ hnil⟩, fun h => h.1.symm⟩

end OrderedMap
end Basis
end LaneBroker
