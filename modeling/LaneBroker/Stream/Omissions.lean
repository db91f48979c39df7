/-
# What a manifest leaves out

A remote run tests the tree its manifest lists.  A listed path may be left out where it is not
on disk, where a pattern excludes it, or as a link that points outside and is reported.  What is
left out besides is what the code cannot see: a name that is no UTF-8, looked up under the name
it decodes to, and a name at which `lstat` fails although something is there.
-/

import LaneBroker.Stream.Manifest

namespace LaneBroker
namespace Stream

open LaneBroker.Basis

/-- **What `git ls-files -z` lists**: names without a NUL in them, in any bytes. -/
structure Listing where
  names : List (List UInt8)
  nonempty : ∀ name ∈ names, name ≠ []
  no_nul : ∀ name ∈ names, 0 ∉ name

/-- What git prints of the listing. -/
def Listing.text (listing : Listing) : List UInt8 := listing.names.flatMap (· ++ [0])

/-! ### Reading the listing -/

theorem nulChunks_text {names : List (List UInt8)} (h : ∀ name ∈ names, 0 ∉ name) :
    nulChunks (names.flatMap (· ++ [0])) = names.map decodeUtf8 ++ [[]] := by
  induction names with
  | nil => rfl
  | cons name names ih =>
    obtain ⟨hname, hnames⟩ := List.forall_mem_cons.1 h
    have hfree : (0 : UInt16) ∉ decodeUtf8 name := Utf8.zero_not_mem_decode hname
    rw [nulChunks, List.flatMap_cons, List.append_assoc, List.singleton_append,
      Utf8.decode_append_zero, List.splitOn_append_cons_self, List.splitOn_eq_singleton hfree]
    exact congrArg (decodeUtf8 name :: ·) (ih hnames)

/-- **Each name is read as the text it decodes to.** -/
theorem parsePathList_text (listing : Listing) :
    parsePathList listing.text = listing.names.map decodeUtf8 := by
  rw [parsePathList, Listing.text, nulChunks_text listing.no_nul, List.filter_append]
  have hkeep : ∀ p ∈ listing.names.map decodeUtf8, decide (p ≠ []) = true := by
    intro p hp
    obtain ⟨name, hname, rfl⟩ := List.mem_map.1 hp
    exact decide_eq_true (Utf8.decode_ne_nil (listing.nonempty name hname))
  rw [List.filter_eq_self.2 hkeep]
  simp

/-! ### The two passes -/

section Passes

variable {sha256 : List UInt8 → JsString} {disk : Disk}

theorem computeEntry_path {relPath : JsString} {item : Item} {e : Built.Entry}
    (h : computeEntry sha256 disk relPath item = .ok e) : e.path = relPath := by
  unfold computeEntry at h
  split at h
  · split_ifs at h
    obtain rfl := Except.ok.inj h
    rfl
  · cases h
  · cases h
  · split_ifs at h
    obtain rfl := Except.ok.inj h
    rfl

/-- **The first pass finds just what `lstat` finds** at the candidates. -/
theorem collect_mem {modeMap : JsString → Option JsString} {seen paths : List JsString}
    {entries : List Built.Entry} (h : collect sha256 disk modeMap seen paths = .ok entries)
    (p : JsString) :
    (∃ e ∈ entries, e.path = p) ↔ p ∈ paths ∧ p ∉ seen ∧ disk.lstatSync p ≠ none := by
  induction paths generalizing seen entries with
  | nil =>
    obtain rfl := Except.ok.inj h
    simp
  | cons relPath rest ih =>
    unfold collect at h
    split_ifs at h with hseen
    · rw [ih h, List.mem_cons]
      grind
    · split at h
      · cases h
      · split at h
        · rename_i hnone
          rw [ih h]
          grind
        · cases h
        · rename_i item _ hitem
          split at h
          · cases h
          · rename_i e he
            cases hrest : collect sha256 disk modeMap (relPath :: seen) rest with
            | error r => rw [hrest] at h; cases h
            | ok es =>
              rw [hrest] at h
              obtain rfl := Except.ok.inj h
              have hpath : e.path = relPath := computeEntry_path he
              have hthere : disk.lstatSync relPath ≠ none := by rw [hitem]; simp
              have := ih hrest
              grind

/-- What the second pass makes of the rest, with one entry or one path more. -/
theorem exists_of_map_ok {α β : Type} {x : Except Refusal α} {f : α → β} {b : β}
    (h : x.map f = .ok b) : ∃ a, x = .ok a ∧ f a = b := by
  cases x with
  | error r => cases h
  | ok a => exact ⟨a, rfl, Except.ok.inj h⟩

/-- **The second pass keeps or reports every entry**, and nothing else. -/
theorem sift_mem {omits : Bool} {symlinkPaths omitted : List JsString}
    {entries kept : List Built.Entry} (h : sift omits symlinkPaths entries = .ok (kept, omitted))
    (p : JsString) :
    ((∃ e ∈ kept, e.path = p) ∨ p ∈ omitted) ↔ ∃ e ∈ entries, e.path = p := by
  induction entries generalizing kept omitted with
  | nil =>
    obtain ⟨rfl, rfl⟩ := Prod.mk.inj (Except.ok.inj h)
    simp
  | cons e rest ih =>
    unfold sift at h
    split at h
    · obtain ⟨⟨kept', omitted'⟩, hrest, heq⟩ := exists_of_map_ok h
      obtain ⟨rfl, rfl⟩ := Prod.mk.inj heq
      simp only [List.mem_cons, or_and_right, exists_or, exists_eq_left, or_assoc, ih hrest]
    · rename_i link target
      split at h
      · obtain ⟨⟨kept', omitted'⟩, hrest, heq⟩ := exists_of_map_ok h
        obtain ⟨rfl, rfl⟩ := Prod.mk.inj heq
        simp only [List.mem_cons, or_and_right, exists_or, exists_eq_left, or_assoc, ih hrest]
      · split_ifs at h
        obtain ⟨⟨kept', omitted'⟩, hrest, heq⟩ := exists_of_map_ok h
        obtain ⟨rfl, rfl⟩ := Prod.mk.inj heq
        simp only [List.mem_cons, or_and_right, exists_or, exists_eq_left, or_left_comm,
          ih hrest]
        rw [show (Built.Entry.symlink link target).path = link from rfl, @eq_comm _ p link]

end Passes

/-! ### The manifest -/

section Complete

variable (sha256 : List UInt8 → JsString) (hashOf : List Built.Entry → JsString) (disk : Disk)
  (options : BuildOptions) (listing : Listing) (modesOut : List UInt8)

/-- A pattern excludes the name. -/
def IsExcluded (name : List UInt8) : Prop :=
  ∃ patterns, options.exclude = some patterns ∧
    (excludingPattern patterns (decodeUtf8 name)).isSome = true

/-- The name is that of an entry, or of a link that is reported as omitted. -/
def Manifest.Accounts (m : Manifest) (name : List UInt8) : Prop :=
  (∃ e ∈ m.entries, encodeUtf8 e.path = name) ∨ ∃ p ∈ m.omittedSymlinks, encodeUtf8 p = name

/-- **The manifest leaves out no listed path that is on disk**, unless a pattern excludes it. -/
def OmitsNothing : Prop :=
  ∀ m, buildManifest sha256 disk hashOf options listing.text modesOut = .ok m →
    ∀ name ∈ listing.names, disk.item name ≠ none → IsExcluded options name ∨ m.Accounts name

variable {sha256 hashOf disk options listing modesOut}

/-- The paths that are looked at: the listed ones that no pattern excludes. -/
theorem mem_candidates {p : JsString} :
    p ∈ ((options.exclude.map fun patterns =>
        applyRemoteExclude disk patterns (parsePathList listing.text)).map Prod.fst).getD
          (parsePathList listing.text) ↔
      ∃ name ∈ listing.names, decodeUtf8 name = p ∧ ¬ IsExcluded options name := by
  rw [parsePathList_text]
  unfold IsExcluded
  cases options.exclude with
  | none => simp
  | some patterns =>
    simp [applyRemoteExclude]
    grind

/-- **A manifest lists or reports just the candidates that `lstat` finds.** -/
theorem buildManifest_mem {m : Manifest}
    (h : buildManifest sha256 disk hashOf options listing.text modesOut = .ok m) (p : JsString) :
    ((∃ e ∈ m.entries, e.path = p) ∨ p ∈ m.omittedSymlinks) ↔
      (∃ name ∈ listing.names, decodeUtf8 name = p ∧ ¬ IsExcluded options name) ∧
        disk.lstatSync p ≠ none := by
  unfold buildManifest at h
  dsimp only at h
  split at h
  · cases h
  · rename_i rawEntries hraw
    split at h
    · cases h
    · rename_i kept omitted hsift
      obtain rfl := Except.ok.inj h
      simp only [sortEntries, List.mem_mergeSort]
      rw [sift_mem hsift, collect_mem hraw, mem_candidates]
      simp

/-- **`buildManifest` leaves out nothing that is on disk just when every listed name that is
there, and that no pattern excludes, is UTF-8 and open to `lstat`.** -/
theorem buildManifest_omits_nothing_iff (sha256 : List UInt8 → JsString)
    (hashOf : List Built.Entry → JsString) (disk : Disk) (options : BuildOptions)
    (listing : Listing) (modesOut : List UInt8) :
    OmitsNothing sha256 hashOf disk options listing modesOut ↔
      ((∃ m, buildManifest sha256 disk hashOf options listing.text modesOut = .ok m) →
        ∀ name ∈ listing.names, disk.item name ≠ none → ¬ IsExcluded options name →
          Utf8.Valid name ∧ disk.denied name = false) := by
  constructor
  · rintro h ⟨m, hm⟩ name hname hthere hnot
    have hacc : ∃ p, ((∃ e ∈ m.entries, e.path = p) ∨ p ∈ m.omittedSymlinks) ∧
        encodeUtf8 p = name := by
      rcases h m hm name hname hthere with hex | ⟨e, he, hp⟩ | ⟨p, hp, hname⟩
      · exact absurd hex hnot
      · exact ⟨e.path, .inl ⟨e, he, rfl⟩, hp⟩
      · exact ⟨p, .inr hp, hname⟩
    obtain ⟨p, hp, rfl⟩ := hacc
    have hfound : disk.lstatSync p ≠ none := ((buildManifest_mem hm p).1 hp).2
    refine ⟨Utf8.valid_encode p, ?_⟩
    by_contra hdenied
    rw [Bool.not_eq_false] at hdenied
    simp [Disk.lstatSync, hdenied] at hfound
  · intro h m hm name hname hthere
    by_cases hex : IsExcluded options name
    · exact .inl hex
    · obtain ⟨hvalid, hopen⟩ := h ⟨m, hm⟩ name hname hthere hex
      have hback : encodeUtf8 (decodeUtf8 name) = name := (Utf8.encode_decode_iff name).2 hvalid
      have hfound : disk.lstatSync (decodeUtf8 name) ≠ none := by
        simpa [Disk.lstatSync, hback, hopen] using hthere
      right
      rcases (buildManifest_mem hm (decodeUtf8 name)).2 ⟨⟨name, hname, rfl, hex⟩, hfound⟩ with
        ⟨e, he, hp⟩ | hp
      · exact .inl ⟨e, he, by rw [hp, hback]⟩
      · exact .inr ⟨_, hp, hback⟩

/-- A worktree with one file, whose name is the byte 0xff. -/
def latinDisk : Disk where
  item := fun name => if name = [0xff] then some (.file false [0x78]) else none

/-- What git lists in it. -/
def latinListing : Listing where
  names := [[0xff]]
  nonempty := by decide
  no_nul := by decide

/-- **A file whose name is no UTF-8 is left out**: it is looked up under U+FFFD. -/
theorem buildManifest_omits_a_latin_name :
    ¬ OmitsNothing (fun _ => js "0") (fun _ => js "0") latinDisk {} latinListing [] := by
  intro h
  have hempty : buildManifest (fun _ => js "0") latinDisk (fun _ => js "0") {} latinListing.text []
      = .ok ⟨[], js "0", [], none⟩ := by
    decide +kernel
  rcases h _ hempty [0xff] (by decide) (by decide) with ⟨_, hnone, -⟩ | ⟨_, hmem, -⟩ | ⟨_, hmem, -⟩
  · cases hnone
  · cases hmem
  · cases hmem

end Complete

end Stream
end LaneBroker
