/-
# A file that is synced now and then, and lines in it

What a process reads of a file is its content; what a power loss leaves of it lies between the
contents the file has had since it was last synced.  `SyncedFile` keeps these, and `Survives`
says what can be left: a prefix of one of them, no shorter than the shortest.

The bytes are read as lines, each ended by a newline, and a torn rest after the last newline.
`splitLines` takes them apart, `unlines` puts lines together, and what is cut off a file of
lines anywhere is a prefix of the lines and a prefix of the next (`splitLines_of_prefix`).
-/

import Mathlib.Data.List.Infix

namespace LaneBroker
namespace Basis

/-- Bytes of a file. -/
abbrev Bytes := List UInt8

/-! ### Files -/

/-- **A file**: its content, and the contents before it since the last sync (what that sync
made durable among them). -/
structure SyncedFile where
  /-- What is read. -/
  content : Bytes
  /-- The contents it had since the last sync. -/
  earlier : List Bytes := []
  deriving DecidableEq, Repr

namespace SyncedFile

/-- An appending write. -/
def append (f : SyncedFile) (bytes : Bytes) : SyncedFile :=
  { content := f.content ++ bytes, earlier := f.content :: f.earlier }

/-- `ftruncate`. -/
def truncate (f : SyncedFile) (size : Nat) : SyncedFile :=
  { content := f.content.take size, earlier := f.content :: f.earlier }

/-- `fsync`. -/
def sync (f : SyncedFile) : SyncedFile := { f with earlier := [] }

/-- **What a power loss can leave**: a prefix of a content since the last sync, no shorter than
the shortest of them. -/
def Survives (f : SyncedFile) (bytes : Bytes) : Prop :=
  (∃ g ∈ f.content :: f.earlier, bytes <+: g) ∧
    ∃ g ∈ f.content :: f.earlier, g.length ≤ bytes.length

instance (f : SyncedFile) (bytes : Bytes) : Decidable (f.Survives bytes) := by
  unfold Survives
  infer_instance

/-- The file after the power came back. -/
def restarted (bytes : Bytes) : SyncedFile := { content := bytes }

/-- **Every content since the last sync is `base` and some of `more`.** -/
def Between (f : SyncedFile) (base more : Bytes) : Prop :=
  ∀ g ∈ f.content :: f.earlier, ∃ part, part <+: more ∧ g = base ++ part

variable {f : SyncedFile} {base more bytes : Bytes}

theorem Between.content (h : f.Between base more) :
    ∃ part, part <+: more ∧ f.content = base ++ part :=
  h _ List.mem_cons_self

theorem Between.append {part : Bytes} (h : f.Between base more)
    (hcontent : f.content = base ++ part) (bytes : Bytes) (hmore : part ++ bytes <+: more) : (f.append bytes).Between base more := by
  intro g hg
  rcases List.mem_cons.1 hg with rfl | hg
  · exact ⟨part ++ bytes, hmore, by simp [SyncedFile.append, hcontent]⟩
  · exact h g hg

theorem Between.truncate (h : f.Between base more) :
    (f.truncate base.length).Between base more := by
  intro g hg
  rcases List.mem_cons.1 hg with rfl | hg
  · obtain ⟨part, -, hcontent⟩ := h.content
    exact ⟨[], List.nil_prefix, by simp [SyncedFile.truncate, hcontent]⟩
  · exact h g hg

theorem Between.sync (h : f.Between base more) : f.sync.Between base more := by
  intro g hg
  rw [SyncedFile.sync, List.mem_singleton] at hg
  exact h g (by rw [hg]; exact List.mem_cons_self)

/-- **What survives a power loss lies between, too.** -/
theorem Between.restarted (h : f.Between base more) (hs : f.Survives bytes) :
    (restarted bytes).Between base more := by
  intro g hg
  have hg : g = bytes := by simpa [SyncedFile.restarted] using hg
  subst g
  obtain ⟨⟨g, hg, hpre⟩, g', hg', hlen⟩ := hs
  obtain ⟨part, hpart, rfl⟩ := h g hg
  obtain ⟨part', -, rfl⟩ := h g' hg'
  have hbase : base <+: bytes := by
    refine List.prefix_of_prefix_length_le (List.prefix_append base part) hpre ?_
    rw [List.length_append] at hlen
    omega
  obtain ⟨rest, rfl⟩ := hbase
  exact ⟨rest, ((List.prefix_append_right_inj base).1 hpre).trans hpart, rfl⟩

theorem between_of_synced (h : f.earlier = []) (hcontent : f.content = base) :
    f.Between base more := by
  intro g hg
  rw [h, List.mem_singleton] at hg
  exact ⟨[], List.nil_prefix, by rw [hg, hcontent, List.append_nil]⟩

end SyncedFile

/-! ### Files that are replaced

A file that is never written in place: a new one is renamed over it, and the directory is synced
after that.  A power loss before the sync may leave the old one. -/

/-- **A file that is replaced**: its content, and the contents before it since the directory was
last synced. -/
structure Replaced (α : Type) where
  /-- What is read. -/
  content : α
  /-- The contents it had since the last sync. -/
  earlier : List α := []
  deriving DecidableEq, Repr

/-- **What becomes of an atomic write**: it is done, it throws before the rename, or it throws
behind it, when the directory is synced. -/
inductive WriteIo
  | written
  | failsBefore
  | failsAfter
  deriving DecidableEq, Repr

namespace Replaced

variable {α : Type}

/-- Every content a power loss can leave. -/
def versions (f : Replaced α) : List α := f.content :: f.earlier

/-- **An atomic write**, and whether it returned. -/
def write (f : Replaced α) (a : α) : WriteIo → Replaced α × Bool
  | .written => ({ content := a }, true)
  | .failsBefore => (f, false)
  | .failsAfter => ({ content := a, earlier := f.versions }, false)

theorem content_mem_versions (f : Replaced α) : f.content ∈ f.versions := List.mem_cons_self

/-- An atomic write brings in no content but its own. -/
theorem mem_versions_write {f : Replaced α} {a b : α} {io : WriteIo}
    (h : b ∈ (f.write a io).1.versions) : b = a ∨ b ∈ f.versions := by
  cases io with
  | written => exact .inl (List.mem_singleton.1 h)
  | failsBefore => exact .inr h
  | failsAfter => exact List.mem_cons.1 h

end Replaced

/-! ### Lines -/

/-- The byte of a newline. -/
def newline : UInt8 := 0x0a

/-- **Lines put together**, a newline after each. -/
def unlines (ls : List Bytes) : Bytes := ls.flatMap fun l => l ++ [newline]

/-- **Bytes taken apart**: the lines that are ended, and the torn rest. -/
def splitLines : Bytes → List Bytes × Bytes
  | [] => ([], [])
  | b :: bs =>
    let (ls, rest) := splitLines bs
    if b = newline then ([] :: ls, rest)
    else match ls with
    | [] => ([], b :: rest)
    | l :: ls => ((b :: l) :: ls, rest)

@[simp] theorem unlines_nil : unlines [] = [] := rfl

@[simp] theorem unlines_cons (l : Bytes) (ls : List Bytes) :
    unlines (l :: ls) = l ++ newline :: unlines ls := by
  simp [unlines]

@[simp] theorem unlines_append (ls ms : List Bytes) :
    unlines (ls ++ ms) = unlines ls ++ unlines ms := by
  simp [unlines]

@[simp] theorem splitLines_nil : splitLines [] = ([], []) := rfl

/-- A torn line has no lines in it. -/
theorem splitLines_torn {bs : Bytes} (h : newline ∉ bs) : splitLines bs = ([], bs) := by
  induction bs with
  | nil => rfl
  | cons b bs ih =>
    rw [List.mem_cons, not_or] at h
    obtain ⟨hb, hbs⟩ := h
    simp [splitLines, ih hbs, Ne.symm hb]

/-- The first line is the bytes before the first newline. -/
theorem splitLines_line {l : Bytes} (h : newline ∉ l) (bs : Bytes) :
    splitLines (l ++ newline :: bs) = (l :: (splitLines bs).1, (splitLines bs).2) := by
  induction l with
  | nil => simp [splitLines]
  | cons b l ih =>
    rw [List.mem_cons, not_or] at h
    obtain ⟨hb, hl⟩ := h
    simp [splitLines, ih hl, Ne.symm hb]

/-- Lines and a torn rest are taken apart as they were put together. -/
theorem splitLines_unlines {ls : List Bytes} {rest : Bytes} (hls : ∀ l ∈ ls, newline ∉ l)
    (hrest : newline ∉ rest) : splitLines (unlines ls ++ rest) = (ls, rest) := by
  induction ls with
  | nil => simpa using splitLines_torn hrest
  | cons l ls ih =>
    have hl := hls l List.mem_cons_self
    have ih' := ih fun m hm => hls m (List.mem_cons_of_mem l hm)
    rw [unlines_cons, List.append_assoc, List.cons_append, splitLines_line hl, ih']

/-- A file of whole lines has no torn rest. -/
theorem splitLines_whole {ls : List Bytes} (hls : ∀ l ∈ ls, newline ∉ l) :
    splitLines (unlines ls) = (ls, []) := by
  simpa using splitLines_unlines hls List.not_mem_nil

/-- **What is cut off a file of lines**: some of the lines, whole, and then a part of the next
that has no newline in it. -/
theorem exists_lines_of_prefix {ls : List Bytes} (hls : ∀ l ∈ ls, newline ∉ l) {bs : Bytes}
    (h : bs <+: unlines ls) :
    ∃ ms rest, ms <+: ls ∧ bs = unlines ms ++ rest ∧ newline ∉ rest ∧
      (rest = [] ∨ ∃ l, ms ++ [l] <+: ls ∧ rest <+: l) := by
  induction ls generalizing bs with
  | nil =>
    obtain rfl := List.prefix_nil.1 h
    exact ⟨[], [], List.prefix_rfl, rfl, by simp, .inl rfl⟩
  | cons l ls ih =>
    have hl := hls l List.mem_cons_self
    rw [unlines_cons] at h
    by_cases hshort : bs <+: l
    · refine ⟨[], bs, List.nil_prefix, rfl, fun hb => hl (hshort.subset hb), .inr ⟨l, ?_, hshort⟩⟩
      simp
    · have hlong : l ++ [newline] <+: bs := by
        have hle : l.length < bs.length := by
          by_contra hc
          exact hshort (List.prefix_of_prefix_length_le h (List.prefix_append _ _) (by omega))
        have hline : l ++ [newline] <+: l ++ newline :: unlines ls := ⟨unlines ls, by simp⟩
        refine List.prefix_of_prefix_length_le hline h ?_
        · simp only [List.length_append, List.length_cons, List.length_nil]
          omega
      obtain ⟨cs, rfl⟩ := hlong
      have hcs : cs <+: unlines ls := by
        rw [List.append_assoc] at h
        simpa using h
      obtain ⟨ms, rest, hms, rfl, hrest, hlast⟩ :=
        ih (fun m hm => hls m (List.mem_cons_of_mem l hm)) hcs
      refine ⟨l :: ms, rest, by simpa using hms, by simp, hrest, ?_⟩
      rcases hlast with rfl | ⟨m, hm, hpre⟩
      · exact .inl rfl
      · exact .inr ⟨m, by simpa using hm, hpre⟩

/-- The same, as the reader sees it. -/
theorem splitLines_of_prefix {ls : List Bytes} (hls : ∀ l ∈ ls, newline ∉ l) {bs : Bytes}
    (h : bs <+: unlines ls) : (splitLines bs).1 <+: ls := by
  obtain ⟨ms, rest, hms, rfl, hrest, -⟩ := exists_lines_of_prefix hls h
  rw [splitLines_unlines (fun l hl => hls l (hms.subset hl)) hrest]
  exact hms

/-- Taking bytes apart loses none. -/
theorem unlines_splitLines (bs : Bytes) : unlines (splitLines bs).1 ++ (splitLines bs).2 = bs := by
  induction bs with
  | nil => rfl
  | cons b bs ih =>
    unfold splitLines
    generalize splitLines bs = parts at ih
    obtain ⟨ls, rest⟩ := parts
    dsimp only at ih ⊢
    split_ifs with hb
    · simp [hb, ih]
    · cases ls with
      | nil => simpa using ih
      | cons l ls => simpa using ih

theorem length_unlines_splitLines (bs : Bytes) :
    (unlines (splitLines bs).1).length ≤ bs.length := by
  have := congrArg List.length (unlines_splitLines bs)
  rw [List.length_append] at this
  omega

/-- No line, and no torn rest, has a newline in it. -/
theorem splitLines_proper (bs : Bytes) :
    (∀ l ∈ (splitLines bs).1, newline ∉ l) ∧ newline ∉ (splitLines bs).2 := by
  induction bs with
  | nil => simp
  | cons b bs ih =>
    unfold splitLines
    generalize splitLines bs = parts at ih
    obtain ⟨ls, rest⟩ := parts
    obtain ⟨hls, hrest⟩ := ih
    dsimp only at hls hrest ⊢
    split_ifs with hb
    · exact ⟨by simpa using hls, hrest⟩
    · cases ls with
      | nil => exact ⟨by simp, by simp [Ne.symm hb, hrest]⟩
      | cons l ls =>
        simp only [List.mem_cons, forall_eq_or_imp] at hls ⊢
        exact ⟨⟨by simp [Ne.symm hb, hls.1], hls.2⟩, hrest⟩

/-- Bytes that end in a newline are whole lines. -/
theorem exists_unlines {bs : Bytes} (h : bs = [] ∨ bs.getLast? = some newline) :
    ∃ ls, (∀ l ∈ ls, newline ∉ l) ∧ bs = unlines ls := by
  obtain ⟨hls, hrest⟩ := splitLines_proper bs
  have hwhole := unlines_splitLines bs
  by_cases hnil : (splitLines bs).2 = []
  · exact ⟨_, hls, by rw [hnil, List.append_nil] at hwhole; exact hwhole.symm⟩
  · exfalso
    rw [← hwhole, List.getLast?_append_of_ne_nil _ hnil] at h
    rcases h with h | h
    · exact hnil (List.append_eq_nil_iff.1 h).2
    · exact hrest (List.mem_of_getLast? h)

/-- The last line of bytes that end in one. -/
theorem getLast?_splitLines {bs l : Bytes} (h : bs = [] ∨ bs.getLast? = some newline)
    (hl : newline ∉ l) : (splitLines (bs ++ (l ++ [newline]))).1.getLast? = some l := by
  obtain ⟨ls, hls, rfl⟩ := exists_unlines h
  have hproper : ∀ m ∈ ls ++ [l], newline ∉ m := by
    intro m hm
    rcases List.mem_append.1 hm with hm | hm
    · exact hls m hm
    · rw [List.mem_singleton.1 hm]
      exact hl
  have := splitLines_whole hproper
  rw [unlines_append] at this
  simp only [unlines_cons, unlines_nil] at this
  rw [this]
  simp

end Basis
end LaneBroker
