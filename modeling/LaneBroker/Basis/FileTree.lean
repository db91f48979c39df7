/-
# File trees with symbolic links

A tree of directories, files and symbolic links, addressed by physical locations (the list of
names from the root, no link on the way).  A path is a list of components that the host walks
one by one: `..` steps to the parent of where the walk is, a link sends it to the link's own
target.  So the location a path leads to is not to be read off the path, and the lemmas say
when it is: a path on which no link stands (`FileTree.Crosses` is false) is walked as it is
written, directories are made along it and nowhere else, and what is created at it is created
there.
-/

import Mathlib.Data.List.Infix
import Mathlib.Data.Option.Basic

namespace LaneBroker
namespace Basis

/-! ### Nodes, paths and trees -/

/-- **One component of a path**: `.` (or nothing between two slashes), `..` or a name. -/
inductive Component (ν : Type)
  | stay
  | up
  | down (n : ν)
  deriving DecidableEq, Repr

/-- **The target of a link**: where the walk starts again, and what it walks. -/
structure Target (ν : Type) where
  /-- It starts at the root, not at the directory of the link. -/
  absolute : Bool
  /-- The components. -/
  path : List (Component ν)
  deriving DecidableEq, Repr

/-- **What stands at a location.** -/
inductive Node (ν β : Type)
  | dir
  | file (body : β) (exec : Bool)
  | link (target : Target ν)
  deriving DecidableEq, Repr

/-- **Why an operation is refused**, by its POSIX code. -/
inductive FsError
  | exists
  | noEntry
  | notDir
  | tooManyLinks
  | nameTooLong
  | invalid
  deriving DecidableEq, Repr

/-- The name Node gives to the error. -/
def FsError.code : FsError → String
  | .exists => "EEXIST"
  | .noEntry => "ENOENT"
  | .notDir => "ENOTDIR"
  | .tooManyLinks => "ELOOP"
  | .nameTooLong => "ENAMETOOLONG"
  | .invalid => "ERR_INVALID_ARG_VALUE"

/-- **What a volume allows.** -/
structure Volume (ν : Type) where
  /-- The names it can store. -/
  fits : ν → Bool
  /-- How many links one path may go through. -/
  links : Nat

/-- **A file tree.**  The root is a directory, and so is the parent of whatever stands
somewhere. -/
structure FileTree (ν β : Type) where
  /-- What stands at a location. -/
  node : List ν → Option (Node ν β)
  /-- The root is a directory. -/
  root_dir : node [] = some .dir
  /-- Things stand in directories. -/
  parent_dir : ∀ loc n, node (loc ++ [n]) ≠ none → node loc = some .dir

namespace FileTree

variable {ν β : Type} (t : FileTree ν β)

/-- There is a directory at the location. -/
def isDir (loc : List ν) : Bool :=
  match t.node loc with
  | some .dir => true
  | _ => false

/-- There is a link at the location. -/
def isLink (loc : List ν) : Bool :=
  match t.node loc with
  | some (.link _) => true
  | _ => false

theorem isDir_iff {t : FileTree ν β} {loc : List ν} :
    t.isDir loc = true ↔ t.node loc = some .dir := by
  unfold isDir
  split <;> simp_all

theorem isLink_iff {t : FileTree ν β} {loc : List ν} :
    t.isLink loc = true ↔ ∃ target, t.node loc = some (.link target) := by
  unfold isLink
  split <;> simp_all

/-- **Whatever stands below a location stands below a directory.** -/
theorem dir_above {t : FileTree ν β} {loc below : List ν} (hne : below ≠ [])
    (h : t.node (loc ++ below) ≠ none) : t.node loc = some .dir := by
  induction below generalizing loc with
  | nil => exact absurd rfl hne
  | cons n below ih =>
    rw [List.append_cons] at h
    by_cases hnil : below = []
    · subst hnil
      rw [List.append_nil] at h
      exact t.parent_dir loc n h
    · have := ih hnil h
      exact t.parent_dir loc n (by rw [this]; simp)

/-! ### Walking a path -/

/-- **The walk of one stretch of components** from a directory, with so many links left to
follow; `follow` walks on from a link, with what its target and the rest of the stretch make
together. -/
def walkWith (links : Nat)
    (follow : List ν → List (Component ν) → Except FsError (Nat × List ν)) :
    List ν → List (Component ν) → Except FsError (Nat × List ν)
  | loc, [] => .ok (links, loc)
  | loc, c :: rest =>
    match t.node loc with
    | none => .error .noEntry
    | some .dir =>
      match c with
      | .stay => walkWith links follow loc rest
      | .up => walkWith links follow loc.dropLast rest
      | .down n =>
        match t.node (loc ++ [n]) with
        | none => .error .noEntry
        | some .dir => walkWith links follow (loc ++ [n]) rest
        | some (.file _ _) => walkWith links follow (loc ++ [n]) rest
        | some (.link target) =>
          follow (if target.absolute then [] else loc) (target.path ++ rest)
    | some _ => .error .notDir

/-- **Where a path leads from a location**, through at most so many links, and how many of them
are left. -/
def walk : Nat → List ν → List (Component ν) → Except FsError (Nat × List ν)
  | 0 => t.walkWith 0 fun _ _ => .error .tooManyLinks
  | links + 1 => t.walkWith (links + 1) (walk links)

/-- **The directory walk of a path meets a link** at or below `loc`. -/
def Crosses (loc names : List ν) : Prop := ∃ q, q <+: names ∧ t.isLink (loc ++ q) = true

instance (loc names : List ν) : Decidable (t.Crosses loc names) :=
  decidable_of_iff (∃ q ∈ names.inits, t.isLink (loc ++ q) = true) (by simp [Crosses])

theorem walkWith_down {t : FileTree ν β} {links : Nat}
    {follow : List ν → List (Component ν) → Except FsError (Nat × List ν)} {loc names : List ν}
    (hdir : ∀ q, q <+: names → t.node (loc ++ q) = some .dir) :
    t.walkWith links follow loc (names.map .down) = .ok (links, loc ++ names) := by
  induction names generalizing loc with
  | nil => simp [walkWith]
  | cons n names ih =>
    have hloc : t.node loc = some .dir := by simpa using hdir [] (List.nil_prefix)
    have hn : t.node (loc ++ [n]) = some .dir := hdir [n] (by simp)
    have hrest : ∀ q, q <+: names → t.node (loc ++ [n] ++ q) = some .dir := by
      intro q hq
      simpa using hdir (n :: q) (by simpa using hq)
    simp only [List.map_cons, walkWith, hloc, hn, ih hrest, List.append_assoc,
      List.singleton_append]

/-- **A path of directories leads where it is written.** -/
theorem walk_down {t : FileTree ν β} {links : Nat} {loc names : List ν}
    (hdir : ∀ q, q <+: names → t.node (loc ++ q) = some .dir) :
    t.walk links loc (names.map .down) = .ok (links, loc ++ names) := by
  cases links <;> exact walkWith_down hdir

theorem walkWith_last {t : FileTree ν β} {links : Nat}
    {follow : List ν → List (Component ν) → Except FsError (Nat × List ν)} {loc names : List ν}
    {n : ν} (hdir : ∀ q, q <+: names → t.node (loc ++ q) = some .dir)
    (hthere : t.node (loc ++ names ++ [n]) ≠ none)
    (hlast : t.isLink (loc ++ names ++ [n]) = false) :
    t.walkWith links follow loc ((names ++ [n]).map .down) = .ok (links, loc ++ names ++ [n]) := by
  induction names generalizing loc with
  | nil =>
    have hloc : t.node loc = some .dir := by simpa using hdir [] (List.nil_prefix)
    rw [List.append_nil] at hthere hlast ⊢
    simp only [List.nil_append, List.map_cons, List.map_nil, walkWith, hloc]
    cases hn : t.node (loc ++ [n]) with
    | none => exact absurd hn hthere
    | some x =>
      cases x with
      | dir => rfl
      | file body exec => rfl
      | link target => simp [isLink, hn] at hlast
  | cons m names ih =>
    have hloc : t.node loc = some .dir := by simpa using hdir [] (List.nil_prefix)
    have hm : t.node (loc ++ [m]) = some .dir := hdir [m] (by simp)
    have hrest : ∀ q, q <+: names → t.node (loc ++ [m] ++ q) = some .dir := by
      intro q hq
      simpa using hdir (m :: q) (by simpa using hq)
    have := ih hrest (by simpa using hthere) (by simpa using hlast)
    simp only [List.cons_append, List.map_cons, walkWith, hloc, hm, this, List.append_assoc,
      List.nil_append]

/-- **A path of directories down to something that is no link leads where it is written.** -/
theorem walk_last {t : FileTree ν β} {links : Nat} {loc names : List ν} {n : ν}
    (hdir : ∀ q, q <+: names → t.node (loc ++ q) = some .dir)
    (hthere : t.node (loc ++ names ++ [n]) ≠ none)
    (hlast : t.isLink (loc ++ names ++ [n]) = false) :
    t.walk links loc ((names ++ [n]).map .down) = .ok (links, loc ++ names ++ [n]) := by
  cases links <;> exact walkWith_last hdir hthere hlast

/-! ### Walking on -/

theorem walk_nil (t : FileTree ν β) (links : Nat) (loc : List ν) :
    t.walk links loc [] = .ok (links, loc) := by
  cases links <;> rfl

/-- The step of a walk from a directory to a name in it. -/
theorem walk_cons_down {t : FileTree ν β} {links : Nat} {loc : List ν} {n : ν}
    {path : List (Component ν)} (hloc : t.isDir loc = true) :
    t.walk links loc (.down n :: path) =
      match t.node (loc ++ [n]), links with
      | none, _ => .error .noEntry
      | some (.link _), 0 => .error .tooManyLinks
      | some (.link target), links + 1 =>
        t.walk links (if target.absolute then [] else loc) (target.path ++ path)
      | some _, _ => t.walk links (loc ++ [n]) path := by
  rw [isDir_iff] at hloc
  cases links <;>
    · simp only [walk, walkWith, hloc]
      cases hn : t.node (loc ++ [n]) with
      | none => rfl
      | some x => cases x <;> rfl

/-- Nothing is walked from where there is no directory. -/
theorem walk_cons_of_not_dir {t : FileTree ν β} {links : Nat} {loc : List ν} {c : Component ν}
    {path : List (Component ν)} {r : Nat × List ν} (hloc : t.isDir loc ≠ true) :
    t.walk links loc (c :: path) ≠ .ok r := by
  rw [Ne, isDir_iff] at hloc
  intro h
  cases links <;>
    · simp only [walk, walkWith] at h
      split at h
      · cases h
      · contradiction
      · cases h

theorem walkWith_append {t : FileTree ν β} {links : Nat}
    {follow : List ν → List (Component ν) → Except FsError (Nat × List ν)}
    {walkOn : Nat → List ν → List (Component ν) → Except FsError (Nat × List ν)}
    (hsame : walkOn links = t.walkWith links follow)
    (hfollow : ∀ loc a b, follow loc (a ++ b) = follow loc a >>= fun r => walkOn r.1 r.2 b)
    (loc : List ν) (a b : List (Component ν)) :
    t.walkWith links follow loc (a ++ b) =
      t.walkWith links follow loc a >>= fun r => walkOn r.1 r.2 b := by
  induction a generalizing loc with
  | nil => simp [walkWith, hsame, bind, Except.bind]
  | cons c a ih =>
    rw [List.cons_append]
    unfold walkWith
    cases hloc : t.node loc with
    | none => rfl
    | some x =>
      cases x with
      | file body exec => rfl
      | link target => rfl
      | dir =>
        cases c with
        | stay => exact ih loc
        | up => exact ih loc.dropLast
        | down n =>
          dsimp only
          cases hn : t.node (loc ++ [n]) with
          | none => rfl
          | some y =>
            cases y with
            | dir => exact ih (loc ++ [n])
            | file body exec => exact ih (loc ++ [n])
            | link target =>
              dsimp only
              rw [← List.append_assoc]
              exact hfollow _ _ _

/-- **A walk of two stretches walks the first, and the second from where that leads.** -/
theorem walk_append (t : FileTree ν β) (links : Nat) (loc : List ν) (a b : List (Component ν)) :
    t.walk links loc (a ++ b) = t.walk links loc a >>= fun r => t.walk r.1 r.2 b := by
  induction links generalizing loc a b with
  | zero => exact walkWith_append rfl (fun _ _ _ => rfl) loc a b
  | succ links ih => exact walkWith_append rfl ih loc a b

/-- `u` is `t` with more in it: whatever stands in `t` stands in `u`. -/
def Extends (t u : FileTree ν β) : Prop := ∀ p, t.node p ≠ none → u.node p = t.node p

theorem Extends.refl (t : FileTree ν β) : Extends t t := fun _ _ => rfl

theorem Extends.trans {t u w : FileTree ν β} (h : Extends t u) (h' : Extends u w) :
    Extends t w := fun p hp => by rw [h' p (by rw [h p hp]; exact hp), h p hp]

theorem Extends.node {t u : FileTree ν β} (h : Extends t u) {p : List ν} {x : Node ν β}
    (hp : t.node p = some x) : u.node p = some x := by
  rw [h p (by rw [hp]; simp), hp]

theorem Extends.walkWith {t u : FileTree ν β} (h : Extends t u) {links : Nat}
    {follow follow' : List ν → List (Component ν) → Except FsError (Nat × List ν)}
    (hfollow : ∀ loc path r, follow loc path = .ok r → follow' loc path = .ok r)
    {loc : List ν} {path : List (Component ν)} {r : Nat × List ν}
    (hr : t.walkWith links follow loc path = .ok r) :
    u.walkWith links follow' loc path = .ok r := by
  induction path generalizing loc with
  | nil => exact hr
  | cons c path ih =>
    unfold FileTree.walkWith at hr ⊢
    cases hloc : t.node loc with
    | none => simp [hloc] at hr
    | some x =>
      rw [h.node hloc]
      rw [hloc] at hr
      cases x with
      | file body exec => cases hr
      | link target => cases hr
      | dir =>
        cases c with
        | stay => exact ih hr
        | up => exact ih hr
        | down n =>
          dsimp only at hr ⊢
          cases hn : t.node (loc ++ [n]) with
          | none => simp [hn] at hr
          | some y =>
            rw [h.node hn]
            rw [hn] at hr
            cases y with
            | dir => exact ih hr
            | file body exec => exact ih hr
            | link target => exact hfollow _ _ _ hr

theorem Extends.isDir {t u : FileTree ν β} (h : Extends t u) {p : List ν}
    (hp : t.isDir p = true) : u.isDir p = true := isDir_iff.2 (h.node (isDir_iff.1 hp))

/-- **A path that leads somewhere leads there in a tree with more in it.** -/
theorem Extends.walk {t u : FileTree ν β} (h : Extends t u) {links : Nat} {loc : List ν}
    {path : List (Component ν)} {r : Nat × List ν} (hr : t.walk links loc path = .ok r) :
    u.walk links loc path = .ok r := by
  induction links generalizing loc path r with
  | zero => exact h.walkWith (fun _ _ _ hf => hf) hr
  | succ links ih => exact h.walkWith (fun _ _ _ hf => ih hf) hr

/-- **A path of directories can be made**: the part of it that is there leads to a directory, in
which the next name is free, and the volume stores every name from there on. -/
def Opens (t : FileTree ν β) (v : Volume ν) (links : Nat) (loc names : List ν) : Prop :=
  ∃ there missing left d, names = there ++ missing ∧
    t.walk links loc (there.map .down) = .ok (left, d) ∧ t.isDir d = true ∧
    (∀ n ∈ missing, v.fits n = true) ∧
    ∀ n, missing.head? = some n → t.node (d ++ [n]) = none

/-- On a free name the whole path is made. -/
theorem opens_free {t : FileTree ν β} {v : Volume ν} {links : Nat} {loc names : List ν} {n : ν}
    (hdir : t.isDir loc = true) (hfree : t.node (loc ++ [n]) = none) :
    t.Opens v links loc (n :: names) ↔ ∀ m ∈ n :: names, v.fits m = true := by
  constructor
  · rintro ⟨there, missing, left, d, hsplit, hwalk, -, hfits, -⟩
    cases there with
    | nil =>
      rw [List.nil_append] at hsplit
      rwa [hsplit]
    | cons m there =>
      obtain ⟨rfl, -⟩ := List.cons_eq_cons.1 hsplit
      rw [List.map_cons, walk_cons_down hdir, hfree] at hwalk
      cases hwalk
  · intro hfits
    refine ⟨[], n :: names, links, loc, rfl, walk_nil t links loc, hdir, hfits, fun m hm => ?_⟩
    obtain rfl := Option.some.inj hm
    exact hfree

/-- A path of no names opens where there is a directory. -/
theorem opens_nil {t : FileTree ν β} {v : Volume ν} {links : Nat} {loc : List ν}
    (hdir : t.isDir loc = true) : t.Opens v links loc [] :=
  ⟨[], [], links, loc, rfl, walk_nil t links loc, hdir, nofun, nofun⟩

/-- From a directory on the way the rest of the path has to open. -/
theorem opens_down {t : FileTree ν β} {v : Volume ν} {links left : Nat} {loc there : List ν}
    {n : ν} {names : List ν} (hthere : t.node (loc ++ [n]) ≠ none)
    (hwalk : ∀ path, t.walk links loc (.down n :: path) = t.walk left there path) :
    t.Opens v links loc (n :: names) ↔ t.Opens v left there names := by
  constructor
  · rintro ⟨present, missing, k, d, hsplit, hw, hd, hfits, hfree⟩
    cases present with
    | nil =>
      rw [List.map_nil, walk_nil] at hw
      obtain ⟨-, rfl⟩ := Prod.mk.inj (Except.ok.inj hw)
      exact absurd (hfree n (by rw [List.nil_append] at hsplit; simp [← hsplit])) hthere
    | cons m present =>
      obtain ⟨rfl, hrest⟩ := List.cons_eq_cons.1 hsplit
      rw [List.map_cons, hwalk] at hw
      exact ⟨present, missing, k, d, hrest, hw, hd, hfits, hfree⟩
  · rintro ⟨present, missing, k, d, hsplit, hw, hd, hfits, hfree⟩
    refine ⟨n :: present, missing, k, d, by rw [hsplit, List.cons_append], ?_, hd, hfits, hfree⟩
    rw [List.map_cons, hwalk, hw]

/-- A path does not open where its first name is there and leads nowhere. -/
theorem not_opens_down {t : FileTree ν β} {v : Volume ν} {links : Nat} {loc names : List ν}
    {n : ν} (hthere : t.node (loc ++ [n]) ≠ none)
    (hwalk : ∀ path r, t.walk links loc (.down n :: path) ≠ .ok r) :
    ¬ t.Opens v links loc (n :: names) := by
  rintro ⟨present, missing, k, d, hsplit, hw, -, -, hfree⟩
  cases present with
  | nil =>
    rw [List.map_nil, walk_nil] at hw
    obtain ⟨-, rfl⟩ := Prod.mk.inj (Except.ok.inj hw)
    exact hthere (hfree n (by rw [List.nil_append] at hsplit; simp [← hsplit]))
  | cons m present =>
    obtain ⟨rfl, -⟩ := List.cons_eq_cons.1 hsplit
    exact hwalk _ _ hw

/-- No path of directories opens from where there is none. -/
theorem not_opens {t : FileTree ν β} {v : Volume ν} {links : Nat} {loc names : List ν}
    (hdir : t.isDir loc ≠ true) : ¬ t.Opens v links loc names := by
  rintro ⟨present, missing, k, d, hsplit, hw, hd, -⟩
  cases present with
  | nil =>
    rw [List.map_nil, walk_nil] at hw
    obtain ⟨-, rfl⟩ := Prod.mk.inj (Except.ok.inj hw)
    exact hdir hd
  | cons m present => exact walk_cons_of_not_dir hdir hw

/-! ### Directories added on a path -/

/-- `t'` is `t` with directories added on the path below a location, and nothing else. -/
def Widens (t t' : FileTree ν β) (loc names : List ν) : Prop :=
  ∀ p, t'.node p = t.node p ∨
    (t.node p = none ∧ t'.node p = some .dir ∧ ∃ q, q <+: names ∧ p = loc ++ q)

theorem Widens.refl (t : FileTree ν β) (loc names : List ν) : Widens t t loc names :=
  fun _ => .inl rfl

theorem Widens.dir {t t' : FileTree ν β} {loc names p : List ν} (h : Widens t t' loc names)
    (hp : t.node p = some .dir) : t'.node p = some .dir := by
  rcases h p with he | ⟨-, hd, -⟩
  · rw [he, hp]
  · exact hd

/-- `u` is `t` with at most one directory added, `n` in `loc`. -/
def AddsDir (t u : FileTree ν β) (loc : List ν) (n : ν) : Prop :=
  ∀ p, u.node p = t.node p ∨ (t.node p = none ∧ u.node p = some .dir ∧ p = loc ++ [n])

theorem AddsDir.refl (t : FileTree ν β) (loc : List ν) (n : ν) : AddsDir t t loc n :=
  fun _ => .inl rfl

/-- The first directory of a path, and then what the rest of the path adds. -/
theorem AddsDir.cons {t u t' : FileTree ν β} {loc names : List ν} {n : ν}
    (hfirst : AddsDir t u loc n)
    (hrest : Widens u t' (loc ++ [n]) names) : Widens t t' loc (n :: names) := by
  intro p
  rcases hfirst p with he | ⟨hnone, hd, rfl⟩
  · rcases hrest p with hf | ⟨hnone, hd, q, hq, rfl⟩
    · exact .inl (hf.trans he)
    · exact .inr ⟨by rw [← he, hnone], hd, n :: q, by simpa using hq, by simp⟩
  · exact .inr ⟨hnone, hrest.dir hd, [n], by simp, rfl⟩

theorem Crosses.of_addsDir {t u : FileTree ν β} {loc names : List ν} {n : ν}
    (hfirst : AddsDir t u loc n) (h : u.Crosses (loc ++ [n]) names) : t.Crosses loc (n :: names) := by
  obtain ⟨q, hq, hlink⟩ := h
  obtain ⟨target, hnode⟩ := isLink_iff.1 hlink
  refine ⟨n :: q, by simpa using hq, isLink_iff.2 ⟨target, ?_⟩⟩
  rcases hfirst (loc ++ [n] ++ q) with he | ⟨-, hd, -⟩
  · rw [← hnode, he]
    simp
  · rw [hnode] at hd
    cases hd

/-! ### Changing the tree -/

variable [DecidableEq ν]

/-- The tree with something new put in a directory, at a name that is free. -/
def put (loc : List ν) (n : ν) (x : Node ν β) (hdir : t.node loc = some .dir)
    (hfree : t.node (loc ++ [n]) = none) : FileTree ν β where
  node := fun p => if p = loc ++ [n] then some x else t.node p
  root_dir := by simp [t.root_dir]
  parent_dir := by
    intro p m h
    by_cases hp : p = loc ++ [n]
    · subst hp
      have hm : t.node (loc ++ [n] ++ [m]) ≠ none := by simpa using h
      exact absurd hfree (by rw [t.parent_dir _ _ hm]; simp)
    · rw [if_neg hp]
      by_cases hpm : p ++ [m] = loc ++ [n]
      · rw [(List.append_inj' hpm rfl).1]
        exact hdir
      · rw [if_neg hpm] at h
        exact t.parent_dir p m h

/-- **Something new in a directory** (`mkdir`, `symlink`, or `open` with `O_CREAT|O_EXCL`, each
of which leaves a last component that is there alone, link or not). -/
def create (v : Volume ν) (loc : List ν) (n : ν) (x : Node ν β) : Except FsError (FileTree ν β) :=
  if hdir : t.isDir loc = true then
    if hfree : (t.node (loc ++ [n])).isNone = true then
      if v.fits n then
        .ok (t.put loc n x (isDir_iff.1 hdir) (Option.isNone_iff_eq_none.1 hfree))
      else .error .nameTooLong
    else .error .exists
  else .error .notDir

theorem create_ok {v : Volume ν} {t t' : FileTree ν β} {loc : List ν} {n : ν} {x : Node ν β}
    (h : t.create v loc n x = .ok t') :
    t.node (loc ++ [n]) = none ∧
      ∀ p, t'.node p = if p = loc ++ [n] then some x else t.node p := by
  unfold create at h
  split_ifs at h with hdir hfree
  · obtain rfl := Except.ok.inj h
    exact ⟨Option.isNone_iff_eq_none.1 hfree, fun _ => rfl⟩

theorem addsDir_create {v : Volume ν} {t u : FileTree ν β} {loc : List ν} {n : ν}
    (h : t.create v loc n .dir = .ok u) : AddsDir t u loc n := by
  obtain ⟨hnone, hu⟩ := create_ok h
  intro p
  by_cases hp : p = loc ++ [n]
  · exact .inr ⟨by rw [hp, hnone], by simp [hu, hp], hp⟩
  · exact .inl (by simp [hu, hp])

/-- **A file that is there changed in place**, in what it holds or in its mode. -/
def amend (loc : List ν) (f : β → Bool → β × Bool) : Except FsError (FileTree ν β) :=
  match h : t.node loc with
  | some (.file body exec) => .ok
    { node := fun p =>
        if p = loc then some (.file (f body exec).1 (f body exec).2) else t.node p
      root_dir := by
        have hne : [] ≠ loc := by
          rintro rfl
          rw [t.root_dir] at h
          exact absurd h (by simp)
        rw [if_neg hne]
        exact t.root_dir
      parent_dir := by
        intro p n hp
        have hnode : t.node (p ++ [n]) ≠ none := by
          by_cases hpn : p ++ [n] = loc
          · rw [hpn, h]
            simp
          · simpa [hpn] using hp
        have hdir := t.parent_dir p n hnode
        have hne : p ≠ loc := by
          rintro rfl
          rw [h] at hdir
          exact absurd hdir (by simp)
        rw [if_neg hne]
        exact hdir }
  | some _ => .error .invalid
  | none => .error .noEntry

theorem amend_ok {t t' : FileTree ν β} {loc : List ν} {f : β → Bool → β × Bool}
    (h : t.amend loc f = .ok t') :
    ∃ body exec, ∀ p, t'.node p = if p = loc then some (.file body exec) else t.node p := by
  unfold amend at h
  split at h
  · obtain rfl := Except.ok.inj h
    exact ⟨_, _, fun _ => rfl⟩
  · cases h
  · cases h

theorem isDir_amend {t t' : FileTree ν β} {loc d : List ν} {f : β → Bool → β × Bool}
    (h : t.amend loc f = .ok t') (hd : t.isDir d = true) : t'.isDir d = true := by
  rw [isDir_iff] at hd ⊢
  unfold amend at h
  split at h
  · rename_i hfile
    obtain rfl := Except.ok.inj h
    dsimp only
    rw [if_neg, hd]
    rintro rfl
    cases hfile.symm.trans hd
  · cases h
  · cases h

/-- A file that is there can be changed. -/
theorem exists_amend {t : FileTree ν β} {loc : List ν} {body : β} {exec : Bool}
    (f : β → Bool → β × Bool) (h : t.node loc = some (.file body exec)) :
    ∃ t', t.amend loc f = .ok t' := by
  unfold amend
  split
  · exact ⟨_, rfl⟩
  · rename_i hfile hnode
    exact absurd (hnode.symm.trans h) fun he => hfile _ _ (Option.some.inj he)
  · rename_i hnode
    exact absurd (hnode.symm.trans h) nofun

/-- **`mkdir -p`**: every directory of the path, made where nothing stands.  A link on the way
is followed, with so many left to follow, and has to lead to a directory.  The tree comes back
also when the walk fails: the directories made before that stay. -/
def mkdirs (v : Volume ν) :
    Nat → FileTree ν β → List ν → List ν → FileTree ν β × Except FsError Unit
  | _, t, _, [] => (t, .ok ())
  | links, t, loc, n :: rest =>
    match t.node (loc ++ [n]) with
    | none =>
      match t.create v loc n .dir with
      | .error e => (t, .error e)
      | .ok t' => mkdirs v links t' (loc ++ [n]) rest
    | some .dir => mkdirs v links t (loc ++ [n]) rest
    | some (.file _ _) => (t, .error (if rest = [] then .exists else .notDir))
    | some (.link target) =>
      match links with
      | 0 => (t, .error .tooManyLinks)
      | links + 1 =>
        match t.walk links (if target.absolute then [] else loc) target.path with
        | .error e => (t, .error e)
        | .ok (left, there) =>
          if t.isDir there then mkdirs v left t there rest
          else (t, .error (if rest = [] then .exists else .notDir))

/-- **On a path without links `mkdir -p` adds directories on the path**, also where it fails. -/
theorem mkdirs_widens (v : Volume ν) (links : Nat) {t : FileTree ν β} {loc names : List ν}
    (hplain : ¬ t.Crosses loc names) : Widens t (mkdirs v links t loc names).1 loc names := by
  induction names generalizing t loc with
  | nil => exact Widens.refl t loc []
  | cons n names ih =>
    unfold mkdirs
    split
    · split
      · exact Widens.refl t loc _
      · rename_i u hc
        have hfirst := addsDir_create hc
        exact hfirst.cons (ih fun h => hplain (h.of_addsDir hfirst))
    · have hfirst := AddsDir.refl t loc n
      exact hfirst.cons (ih fun h => hplain (h.of_addsDir hfirst))
    · exact Widens.refl t loc _
    · rename_i target hlink
      exact absurd ⟨[n], by simp, isLink_iff.2 ⟨target, hlink⟩⟩ hplain

theorem extends_create {v : Volume ν} {t u : FileTree ν β} {loc : List ν} {n : ν} {x : Node ν β}
    (h : t.create v loc n x = .ok u) : Extends t u := by
  obtain ⟨hnone, hu⟩ := create_ok h
  intro p hp
  rw [hu, if_neg]
  rintro rfl
  exact hp hnone

/-- **`mkdir -p` only adds to the tree**, whatever links it follows and also where it fails. -/
theorem extends_mkdirs (v : Volume ν) (links : Nat) (t : FileTree ν β) (loc names : List ν) :
    Extends t (mkdirs v links t loc names).1 := by
  induction names generalizing links t loc with
  | nil => exact Extends.refl t
  | cons n names ih =>
    unfold mkdirs
    split
    · split
      · exact Extends.refl t
      · rename_i u hc
        exact (extends_create hc).trans (ih _ _ _)
    · exact ih _ _ _
    · exact Extends.refl t
    · split
      · exact Extends.refl t
      · split
        · exact Extends.refl t
        · split
          · exact ih _ _ _
          · exact Extends.refl t

/-- **Where `mkdir -p` succeeds the path is one of directories**, if no link stood on it. -/
theorem mkdirs_ok (v : Volume ν) (links : Nat) {t : FileTree ν β} {loc names : List ν}
    (hdir : t.node loc = some .dir) (hplain : ¬ t.Crosses loc names)
    (h : (mkdirs v links t loc names).2 = .ok ()) :
    ∀ q, q <+: names → (mkdirs v links t loc names).1.node (loc ++ q) = some .dir := by
  induction names generalizing t loc with
  | nil =>
    intro q hq
    rw [List.prefix_nil.1 hq, List.append_nil]
    exact hdir
  | cons n names ih =>
    intro q hq
    cases q with
    | nil =>
      rw [List.append_nil]
      exact Widens.dir (mkdirs_widens v links hplain) hdir
    | cons m q =>
      obtain ⟨rfl, hq'⟩ := List.cons_prefix_cons.1 hq
      rw [List.append_cons]
      unfold mkdirs at h ⊢
      split at h
      · split at h
        · cases h
        · rename_i u hc
          have hfirst := addsDir_create hc
          exact ih (by simp [(create_ok hc).2]) (fun hx => hplain (hx.of_addsDir hfirst)) h q hq'
      · rename_i hd
        have hfirst := AddsDir.refl t loc m
        exact ih hd (fun hx => hplain (hx.of_addsDir hfirst)) h q hq'
      · cases h
      · rename_i target hlink
        exact absurd ⟨[m], by simp, isLink_iff.2 ⟨target, hlink⟩⟩ hplain

/-! ### When `mkdir -p` succeeds -/

/-- A directory just made is empty, so any names that fit can be made in it. -/
theorem opens_created {v : Volume ν} {links : Nat} {t u : FileTree ν β} {loc names : List ν}
    {n : ν} (h : t.create v loc n .dir = .ok u) :
    u.Opens v links (loc ++ [n]) names ↔ ∀ m ∈ names, v.fits m = true := by
  obtain ⟨hfree, hnode⟩ := create_ok h
  have hmade : u.isDir (loc ++ [n]) = true := isDir_iff.2 (by simp [hnode])
  cases names with
  | nil => exact ⟨nofun, fun _ => opens_nil hmade⟩
  | cons m names =>
    refine opens_free hmade ?_
    rw [hnode, if_neg (by simp)]
    by_contra hbelow
    exact absurd hfree (by rw [t.parent_dir _ _ hbelow]; simp)

/-- **`mkdir -p` succeeds just where the path opens.** -/
theorem mkdirs_ok_iff (v : Volume ν) {links : Nat} {t : FileTree ν β} {loc names : List ν}
    (hdir : t.isDir loc = true) :
    (mkdirs v links t loc names).2 = .ok () ↔ t.Opens v links loc names := by
  induction names generalizing links t loc with
  | nil => exact ⟨fun _ => opens_nil hdir, fun _ => rfl⟩
  | cons n names ih =>
    unfold mkdirs
    cases hn : t.node (loc ++ [n]) with
    | none =>
      dsimp only
      rw [opens_free hdir hn, List.forall_mem_cons]
      cases hc : t.create v loc n .dir with
      | error e =>
        have hlong : v.fits n ≠ true := by
          intro hfits
          simp [create, hdir, hn, hfits] at hc
        simp [hlong]
      | ok u =>
        have hfits : v.fits n = true := by
          by_contra hfits
          simp [create, hdir, hn, hfits] at hc
        have hmade : u.isDir (loc ++ [n]) = true := isDir_iff.2 (by simp [(create_ok hc).2])
        dsimp only
        rw [ih hmade, opens_created hc]
        simp [hfits]
    | some x =>
      have hthere : t.node (loc ++ [n]) ≠ none := by rw [hn]; simp
      cases x with
      | dir =>
        dsimp only
        rw [ih (isDir_iff.2 hn)]
        exact (opens_down hthere fun path => by rw [walk_cons_down hdir, hn]).symm
      | file body exec =>
        have hfile : t.isDir (loc ++ [n]) ≠ true := by rw [Ne, isDir_iff, hn]; simp
        rw [opens_down hthere fun path => by rw [walk_cons_down hdir, hn]]
        exact iff_of_false nofun (not_opens hfile)
      | link target =>
        cases links with
        | zero =>
          refine iff_of_false nofun (not_opens_down hthere fun path r => ?_)
          rw [walk_cons_down hdir, hn]
          nofun
        | succ links =>
          dsimp only
          generalize hstart : (if target.absolute = true then [] else loc) = start
          have hwalk : ∀ path, t.walk (links + 1) loc (.down n :: path) =
              t.walk links start target.path >>= fun r => t.walk r.1 r.2 path := by
            intro path
            rw [walk_cons_down hdir, hn, ← walk_append, ← hstart]
          cases hw : t.walk links start target.path with
          | error e =>
            refine iff_of_false nofun (not_opens_down hthere fun path r => ?_)
            rw [hwalk, hw]
            nofun
          | ok r =>
            obtain ⟨left, there⟩ := r
            have hon : ∀ path, t.walk (links + 1) loc (.down n :: path) =
                t.walk left there path := by
              intro path
              rw [hwalk, hw]
              rfl
            rw [opens_down hthere hon]
            by_cases hd : t.isDir there = true
            · simp only [hd, if_true]
              exact ih hd
            · simp only [hd]
              exact iff_of_false nofun (not_opens hd)

end FileTree
end Basis
end LaneBroker
