/-
# Directories

A directory maps file names to contents.  It is kept as the list of its entries, so that it
can be listed as well as read.  A write replaces what was there (an atomic rename over the old
file), an unlink of a name that is not there does nothing, and a rename carries a content from
one directory to another.  The lemmas say what one operation does to every name: the name it is
about, and all the others.
-/

import Mathlib.Algebra.Ring.Int.Defs
import Mathlib.Data.List.Basic
import Mathlib.Data.List.Sort

namespace LaneBroker
namespace Basis

/-- **A directory**: file names with their contents, in listing order. -/
structure Dir (ν α : Type) where
  /-- The entries, in listing order. -/
  entries : List (ν × α)
  deriving DecidableEq, Repr

namespace Dir

/-- The empty directory. -/
def empty {ν α : Type} : Dir ν α := ⟨[]⟩

variable {ν α : Type} [DecidableEq ν]

/-- The content of a file, `none` where there is no such file. -/
def read (d : Dir ν α) (n : ν) : Option α := (d.entries.find? fun e => e.1 = n).map Prod.snd

/-- The directory without one file. -/
def unlink (d : Dir ν α) (n : ν) : Dir ν α := ⟨d.entries.filter fun e => e.1 ≠ n⟩

/-- The directory with one file written, over an old one of the same name. -/
def write (d : Dir ν α) (n : ν) (a : α) : Dir ν α := ⟨(d.unlink n).entries ++ [(n, a)]⟩

@[simp] theorem read_empty (n : ν) : (empty : Dir ν α).read n = none := rfl

theorem mem_unlink {d : Dir ν α} {n : ν} {e : ν × α} :
    e ∈ (d.unlink n).entries ↔ e ∈ d.entries ∧ e.1 ≠ n := by
  simp [unlink]

theorem mem_write {d : Dir ν α} {n : ν} {a : α} {e : ν × α} :
    e ∈ (d.write n a).entries ↔ (e ∈ d.entries ∧ e.1 ≠ n) ∨ e = (n, a) := by
  rw [write, List.mem_append, mem_unlink, List.mem_singleton]

@[simp] theorem read_unlink_self (d : Dir ν α) (n : ν) : (d.unlink n).read n = none := by
  simp [read, unlink]

theorem read_unlink_of_ne (d : Dir ν α) {m n : ν} (h : m ≠ n) :
    (d.unlink n).read m = d.read m := by
  simp only [read, unlink, List.find?_filter]
  congr 2
  funext e
  by_cases he : e.1 = m <;> simp [he, h]

theorem unlink_of_read_none {d : Dir ν α} {n : ν} (h : d.read n = none) : d.unlink n = d := by
  obtain ⟨entries⟩ := d
  have hall := List.find?_eq_none.1 (Option.map_eq_none_iff.1 h)
  have hkept : entries.filter (fun e => e.1 ≠ n) = entries :=
    List.filter_eq_self.2 fun e he => by simpa using hall e he
  exact congrArg Dir.mk hkept

@[simp] theorem unlink_write (d : Dir ν α) (n : ν) (a : α) :
    (d.write n a).unlink n = d.unlink n := by
  simp [write, unlink]

@[simp] theorem read_write_self (d : Dir ν α) (n : ν) (a : α) :
    (d.write n a).read n = some a := by
  have h : (d.unlink n).entries.find? (fun e => e.1 = n) = none := by
    simp [unlink]
  change (((d.unlink n).entries ++ [(n, a)]).find? _).map _ = _
  simp [List.find?_append, h]

theorem read_write_of_ne (d : Dir ν α) {m n : ν} (a : α) (h : m ≠ n) :
    (d.write n a).read m = d.read m := by
  rw [← read_unlink_of_ne d h]
  simp [read, write, List.find?_append, h.symm]

theorem read_write (d : Dir ν α) (m n : ν) (a : α) :
    (d.write n a).read m = if m = n then some a else d.read m := by
  split_ifs with h
  · rw [h, read_write_self]
  · exact read_write_of_ne d a h

theorem read_unlink (d : Dir ν α) (m n : ν) :
    (d.unlink n).read m = if m = n then none else d.read m := by
  split_ifs with h
  · rw [h, read_unlink_self]
  · exact read_unlink_of_ne d h

theorem mem_of_read {d : Dir ν α} {n : ν} {a : α} (h : d.read n = some a) :
    (n, a) ∈ d.entries := by
  obtain ⟨e, he, rfl⟩ := Option.map_eq_some_iff.1 h
  have hn : e.1 = n := by simpa using List.find?_some he
  rw [← hn]
  exact List.mem_of_find?_eq_some he

theorem read_ne_none_of_mem {d : Dir ν α} {e : ν × α} (h : e ∈ d.entries) :
    d.read e.1 ≠ none := by
  intro hnone
  have := List.find?_eq_none.1 (Option.map_eq_none_iff.1 hnone) e h
  simp at this

/-! ### Sums -/

/-- No name twice. -/
def Once (d : Dir ν α) : Prop := (d.entries.map Prod.fst).Nodup

/-- The sum of a size over the contents. -/
def total (size : α → Int) (d : Dir ν α) : Int := (d.entries.map fun e => size e.2).sum

theorem Once.unlink {d : Dir ν α} (h : d.Once) (n : ν) : (d.unlink n).Once :=
  h.sublist (List.filter_sublist.map _)

theorem Once.write {d : Dir ν α} (h : d.Once) (n : ν) (a : α) : (d.write n a).Once := by
  have hmap : (d.write n a).entries.map Prod.fst = (d.unlink n).entries.map Prod.fst ++ [n] := by
    simp [Dir.write]
  unfold Once
  rw [hmap, List.nodup_append]
  refine ⟨h.unlink n, List.nodup_singleton n, fun m hm m' hm' heq => ?_⟩
  obtain ⟨e, he, rfl⟩ := List.mem_map.1 hm
  exact (mem_unlink.1 he).2 (heq.trans (List.mem_singleton.1 hm'))

theorem total_write (size : α → Int) (d : Dir ν α) (n : ν) (a : α) :
    (d.write n a).total size = (d.unlink n).total size + size a := by
  simp [total, write]

/-- **What an unlink takes away**: the content that was read. -/
theorem total_unlink (size : α → Int) {d : Dir ν α} (h : d.Once) (n : ν) :
    (d.unlink n).total size + ((d.read n).map size).getD 0 = d.total size := by
  obtain ⟨entries⟩ := d
  induction entries with
  | nil => rfl
  | cons e entries ih =>
    obtain ⟨hfresh, hrest⟩ : e.1 ∉ entries.map Prod.fst ∧ (entries.map Prod.fst).Nodup :=
      List.nodup_cons.1 h
    specialize ih hrest
    by_cases he : e.1 = n
    · have hnot : (Dir.mk entries).read n = none := by
        by_contra hread
        obtain ⟨a, ha⟩ := Option.ne_none_iff_exists'.1 hread
        exact hfresh (he ▸ List.mem_map_of_mem (f := Prod.fst) (mem_of_read ha))
      have hunlink : (Dir.mk (e :: entries)).unlink n = (Dir.mk entries).unlink n := by
        simp [unlink, he]
      rw [hnot] at ih
      rw [hunlink]
      have hread : (Dir.mk (e :: entries)).read n = some e.2 := by simp [read, he]
      simp only [hread, Option.map_some, Option.map_none, Option.getD_some, Option.getD_none,
        total, List.map_cons, List.sum_cons] at ih ⊢
      omega
    · have hread : (Dir.mk (e :: entries)).read n = (Dir.mk entries).read n := by simp [read, he]
      have hunlink : ((Dir.mk (e :: entries)).unlink n).total size =
          size e.2 + ((Dir.mk entries).unlink n).total size := by
        simp [unlink, total, he]
      rw [hread, hunlink]
      simp only [total, List.map_cons, List.sum_cons] at ih ⊢
      omega

end Dir
end Basis
end LaneBroker
