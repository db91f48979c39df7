/-
# One holder at a time

Who holds the lock is the owner of the lock directory, and what keeps a contender from moving it
is the tomb of the owner that the contender found dead: it is there as long as the contender may
still rename.  `Sound` says this of one call, and `Spares` says what a step of one call leaves to
all others; a step keeps `Sound` of every call (`sound_step`), unless a tomb is collected that a
contender still relies on (`CollectsInUse`).

The age of a tomb is counted from its stamp, which is written before the directory is moved, so
that a tomb may be collected the moment it is there (`two_holders`).
-/

import LaneBroker.Lock.Calls

namespace LaneBroker
namespace Lock

open LaneBroker.Basis

/-! ### What a call relies on -/

/-- The phases of a holder, until it removes the lock itself. -/
def Phase.Holds : Phase → Prop
  | .inside | .leave | .letGo | .relook | .rmList .lock _ _ => True
  | _ => False

/-- The dead owner that a contender has confirmed and may still move. -/
def Phase.confirmed : Phase → Option Nat
  | .clock o | .stampWrite o _ | .stampRename o _ | .takeOver o => some o
  | _ => none

/-- **The directory of an owner is the lock, or its tomb.** -/
def World.Guarded (w : World) (o : Nat) : Prop :=
  ownerOf w.lock = some o ∨ ownerOf (w.tombs.read o) = some o

variable (pidOf : Nat → Nat)

/-- **What a call relies on**, in its phase. -/
def Sound (w : World) (i : Nat) : Phase → Prop
  | .recheck o => w.isDead pidOf o = true
  | .clock o | .stampWrite o _ | .stampRename o _ | .takeOver o =>
    w.isDead pidOf o = true ∧ w.Guarded o
  | .inside | .leave | .letGo | .relook | .rmList .lock _ _ => ownerOf w.lock = some i
  | .rmFile .lock files _ _ => files.Nodup ∧ (.ownerJson ∈ files → ownerOf w.lock = some i)
  | _ => True

/-- Every call of a live process is sound. -/
def AllSound (w : World) : Prop := ∀ i, w.isDead pidOf i = false → Sound pidOf w i (w.phase i)

/-- **What a step leaves to the other calls**: the lock to a live holder, and the guard to a
contender. -/
structure Spares (w w' : World) (i : Nat) : Prop where
  dead : w'.dead = w.dead
  held : ∀ j ≠ i, w.isDead pidOf j = false → ownerOf w.lock = some j → ownerOf w'.lock = some j
  guarded : ∀ j ≠ i, w.isDead pidOf j = false → ∀ o, (w.phase j).confirmed = some o →
    w.isDead pidOf o = true → w.Guarded o → w'.Guarded o

variable {pidOf} {w w' : World} {i j o : Nat}

theorem Spares.refl (w : World) (i : Nat) : Spares pidOf w w i :=
  ⟨rfl, fun _ _ _ h => h, fun _ _ _ _ _ _ h => h⟩

theorem Sound.of_spares (h : Sound pidOf w j (w.phase j)) (hs : Spares pidOf w w' i) (hne : j ≠ i)
    (hlive : w.isDead pidOf j = false) : Sound pidOf w' j (w.phase j) := by
  have hdead : ∀ o, w'.isDead pidOf o = w.isDead pidOf o := fun o => by
    unfold World.isDead
    rw [hs.dead]
  have hheld := hs.held j hne hlive
  have hguarded := hs.guarded j hne hlive
  revert h hguarded
  generalize w.phase j = p
  intro h hguarded
  cases p with
  | recheck o => exact (hdead o).trans h
  | clock o | stampWrite o ms | stampRename o random | takeOver o =>
    exact ⟨(hdead o).trans h.1, hguarded o rfl h.1 h.2⟩
  | inside | leave | letGo | relook => exact hheld h
  | rmList target now names =>
    cases target with
    | lock => exact hheld h
    | tomb o => trivial
  | rmFile target files now names =>
    cases target with
    | lock => exact ⟨h.1, fun hin => hheld (h.2 hin)⟩
    | tomb o => trivial
  | _ => trivial

/-- **A step that spares the others** and leaves its own call sound keeps all sound. -/
theorem allSound_become (h : AllSound pidOf w) (hs : Spares pidOf w w' i) (hphase : w'.phase = w.phase)
    {p : Phase} (hp : Sound pidOf w' i p) : AllSound pidOf (w'.become i p) := by
  intro j hlive
  have hlive' : w.isDead pidOf j = false := by
    unfold World.isDead at hlive ⊢
    rwa [← hs.dead]
  have hsound : ∀ q, Sound pidOf w' j q → Sound pidOf (w'.become i p) j q := by
    intro q hq
    cases q <;> exact hq
  by_cases hne : j = i
  · subst hne
    have hthis : (w'.become j p).phase j = p := by simp [World.become]
    rw [hthis]
    exact hsound p hp
  · have hthat : (w'.become i p).phase j = w.phase j := by simp [World.become, hne, hphase]
    rw [hthat]
    exact hsound _ ((h j hlive').of_spares hs hne hlive')

/-! ### What the operations do to the lock and to a tomb -/

section Effects

variable {d : LockDir} {f : FileName} {c : Content}

theorem ownerOf_of_free {d : Option LockDir} (h : free d = true) : ownerOf d = none := by
  cases d with
  | none => rfl
  | some d =>
    obtain ⟨entries⟩ := d
    cases entries with
    | nil => rfl
    | cons e entries => cases h

theorem ownerOf_write_of_ne (h : f ≠ .ownerJson) : ownerOf (some (d.write f c)) = ownerOf (some d) := by
  simp [ownerOf, Dir.read_write_of_ne d c h.symm]

theorem ownerOf_unlink_of_ne (h : f ≠ .ownerJson) : ownerOf (some (d.unlink f)) = ownerOf (some d) := by
  simp [ownerOf, Dir.read_unlink_of_ne d h.symm]

@[simp] theorem ownerOf_staged (i : Nat) : ownerOf (some (staged i)) = some i := by
  simp [ownerOf, staged]

/-- What leaves the owner of the lock alone spares everybody. -/
theorem spares_of_owner {l : Option LockDir} (h : ownerOf l = ownerOf w.lock) :
    Spares pidOf w { w with lock := l } i :=
  ⟨rfl, fun _ _ _ hj => h.trans hj, fun _ _ _ _ _ _ hg => hg.imp_left h.trans⟩

/-- **Acquiring**: there was no owner. -/
theorem spares_acquire (hfree : free w.lock = true) (l : Option LockDir) :
    Spares pidOf w { w with lock := l } i := by
  have hnone := ownerOf_of_free hfree
  refine ⟨rfl, fun j _ _ hj => ?_, fun j _ _ o _ _ hg => .inr ?_⟩
  · rw [hnone] at hj
    cases hj
  · rcases hg with hl | ht
    · rw [hnone] at hl
      cases hl
    · exact ht

/-- **Releasing**: the owner lets the lock go. -/
theorem spares_release (hlive : w.isDead pidOf i = false) (howner : ownerOf w.lock = some i)
    (l : Option LockDir) : Spares pidOf w { w with lock := l } i := by
  refine ⟨rfl, fun j hne _ hj => ?_, fun j _ _ o _ hdead hg => .inr ?_⟩
  · exact absurd (Option.some.inj (hj.symm.trans howner)) hne
  · rcases hg with hl | ht
    · obtain rfl := Option.some.inj (howner.symm.trans hl)
      rw [hlive] at hdead
      cases hdead
    · exact ht

/-- **Taking over**: what is moved is the directory of the dead owner, since its tomb is not
there. -/
theorem spares_takeOver (hdead : w.isDead pidOf o = true) (hguarded : w.Guarded o) (hlock : w.lock = some d)
    (hfree : free (w.tombs.read o) = true) :
    Spares pidOf w { w with lock := none, tombs := w.tombs.write o d } i := by
  have howner : ownerOf w.lock = some o := by
    refine hguarded.resolve_right fun ht => ?_
    rw [ownerOf_of_free hfree] at ht
    cases ht
  refine ⟨rfl, fun j _ hlive hj => ?_, fun j _ _ o' _ _ hg => .inr ?_⟩
  · obtain rfl := Option.some.inj (howner.symm.trans hj)
    rw [hlive] at hdead
    cases hdead
  · by_cases heq : o' = o
    · subst heq
      rw [Dir.read_write_self, ← hlock]
      exact howner
    · rw [Dir.read_write_of_ne _ _ heq]
      refine hg.resolve_left fun hl => heq ?_
      exact Option.some.inj (hl.symm.trans howner)

/-- **Putting a tomb back**: there was no owner. -/
theorem spares_putBack (htomb : w.tombs.read o = some d) (hfree : free w.lock = true) :
    Spares pidOf w { w with lock := some d, tombs := w.tombs.unlink o } i := by
  have hnone := ownerOf_of_free hfree
  refine ⟨rfl, fun j _ _ hj => ?_, fun j _ _ o' _ _ hg => ?_⟩
  · rw [hnone] at hj
    cases hj
  · have ht : ownerOf (w.tombs.read o') = some o' := by
      refine hg.resolve_left fun hl => ?_
      rw [hnone] at hl
      cases hl
    by_cases heq : o' = o
    · subst heq
      exact .inl (htomb ▸ ht)
    · exact .inr (by rwa [Dir.read_unlink_of_ne _ heq])

/-- **Collecting**: a tomb changes that no contender relies on, or its owner file does not. -/
theorem spares_collect {l : Option LockDir}
    (h : (∀ j, w.isDead pidOf j = false → (w.phase j).confirmed ≠ some o) ∨
      ownerOf l = ownerOf (w.tombs.read o)) :
    Spares pidOf w (w.put l (.tomb o)) i := by
  have hread : ∀ o', (l.elim (w.tombs.unlink o) (w.tombs.write o)).read o' =
      if o' = o then l else w.tombs.read o' := by
    intro o'
    cases l with
    | none => exact Dir.read_unlink _ _ _
    | some d => exact Dir.read_write _ _ _ _
  refine ⟨rfl, fun _ _ _ hj => hj, fun j _ hlive o' hconfirmed _ hg => hg.imp_right fun ht => ?_⟩
  change ownerOf ((l.elim (w.tombs.unlink o) (w.tombs.write o)).read o') = some o'
  rw [hread]
  split_ifs with heq
  · subst heq
    rcases h with hnobody | hsame
    · exact absurd hconfirmed (hnobody j hlive)
    · exact hsame.trans ht
  · exact ht

end Effects

/-! ### A step -/

variable (pidOf) in
/-- **The owner file of a tomb is removed** though a live contender that confirmed the owner has
still to rename. -/
def CollectsInUse (w : World) : Move → Prop
  | .steps i (.ok _) => ∃ o files now names, w.phase i = .rmFile (.tomb o) (.ownerJson :: files) now names ∧
    ∃ j, w.isDead pidOf j = false ∧ (w.phase j).confirmed = some o
  | _ => False

/-- **A removal** of a file or of the directory at last. -/
theorem remove_sound (h : AllSound pidOf w) (hlive : w.isDead pidOf i = false) {random : Nat}
    (hok : ¬ CollectsInUse pidOf w (.steps i (.ok random))) {target : Target} {now : Int}
    {names : List Nat} {files : List FileName} (hphase : w.phase i = .rmFile target files now names) :
    AllSound pidOf (w.remove i target now names files) := by
  have hi := h i hlive
  rw [hphase] at hi
  have hbehind : ∀ v, Sound pidOf v i (World.behindRemoval target now names) := by
    intro v
    cases target <;> trivial
  cases files with
  | nil =>
    unfold World.remove
    split_ifs with hfree
    · refine allSound_become h ?_ (by cases target <;> rfl) (hbehind _)
      cases target with
      | lock => exact spares_acquire hfree none
      | tomb o => exact spares_collect (.inr (ownerOf_of_free hfree).symm)
    · exact allSound_become h (.refl w i) rfl (hbehind w)
  | cons f files =>
    unfold World.remove
    dsimp only
    cases hd : w.at' target with
    | none =>
      refine allSound_become h (.refl w i) rfl ?_
      cases target with
      | lock => exact ⟨hi.1.of_cons, fun hin => hi.2 (List.mem_cons_of_mem _ hin)⟩
      | tomb o => trivial
    | some d =>
      cases target with
      | lock =>
        have hlock : w.lock = some d := hd
        by_cases hf : f = .ownerJson
        · -- the owner removes its own file, which is listed once
          subst hf
          have howner := hi.2 List.mem_cons_self
          have hs : Spares pidOf w (w.put (some (d.unlink .ownerJson)) .lock) i :=
            spares_release hlive howner _
          refine allSound_become h hs rfl ?_
          exact ⟨hi.1.of_cons, fun hin => absurd hin (List.nodup_cons.1 hi.1).1⟩
        · have hsame : ownerOf (some (d.unlink f)) = ownerOf w.lock := by
            rw [ownerOf_unlink_of_ne hf, hlock]
          have hs : Spares pidOf w (w.put (some (d.unlink f)) .lock) i := spares_of_owner hsame
          refine allSound_become h hs rfl ?_
          exact ⟨hi.1.of_cons, fun hin => hsame.trans (hi.2 (List.mem_cons_of_mem _ hin))⟩
      | tomb o =>
        have htomb : w.tombs.read o = some d := hd
        refine allSound_become h (spares_collect ?_) rfl trivial
        by_cases hf : f = .ownerJson
        · subst hf
          refine .inl fun j hj hconfirmed => hok ⟨o, files, now, names, hphase, j, hj, hconfirmed⟩
        · exact .inr (by rw [ownerOf_unlink_of_ne hf, htomb])

theorem writeStamp_sound (h : AllSound pidOf w) {ms : Int} {reply : Reply}
    (hi : w.isDead pidOf o = true ∧ w.Guarded o) : AllSound pidOf (w.writeStamp i o ms reply) := by
  have hwait : AllSound pidOf (w.become i .wait) := allSound_become h (.refl w i) rfl trivial
  have hsame : ∀ {d : LockDir} {random : Nat} {c : Content}, w.lock = some d →
      ownerOf (some (d.write (.stampTmp random) c)) = ownerOf w.lock := by
    intro d random c hlock
    have hne : FileName.stampTmp random ≠ .ownerJson := nofun
    rw [ownerOf_write_of_ne hne, hlock]
  unfold World.writeStamp
  cases reply with
  | fails => exact hwait
  | ok random =>
    dsimp only
    split
    · exact hwait
    · rename_i d hlock
      exact allSound_become h (spares_of_owner (hsame hlock)) rfl
        ⟨hi.1, hi.2.imp_left (hsame hlock).trans⟩
  | tears random =>
    dsimp only
    split
    · exact hwait
    · rename_i d hlock
      exact allSound_become h (spares_of_owner (hsame hlock)) rfl trivial

theorem renameStamp_sound (h : AllSound pidOf w) {random : Nat}
    (hi : w.isDead pidOf o = true ∧ w.Guarded o) : AllSound pidOf (w.renameStamp i o random) := by
  have hwait : AllSound pidOf (w.become i .wait) := allSound_become h (.refl w i) rfl trivial
  unfold World.renameStamp
  split
  · exact hwait
  · rename_i d hlock
    split
    · exact hwait
    · rename_i c _
      have hsame : ownerOf (some ((d.unlink (.stampTmp random)).write .stolenAt c)) = ownerOf w.lock := by
        have hstolen : FileName.stolenAt ≠ .ownerJson := nofun
        have htmp : FileName.stampTmp random ≠ .ownerJson := nofun
        rw [ownerOf_write_of_ne hstolen, ownerOf_unlink_of_ne htmp, hlock]
      exact allSound_become h (spares_of_owner hsame) rfl ⟨hi.1, hi.2.imp_left hsame.trans⟩

/-- **A step keeps every call sound.** -/
theorem sound_step (h : AllSound pidOf w) (hlive : w.isDead pidOf i = false) {reply : Reply}
    (hok : ¬ CollectsInUse pidOf w (.steps i reply)) (hstep : w.step pidOf i reply = some w') :
    AllSound pidOf w' := by
  have hi := h i hlive
  -- most steps touch nothing that is shared
  have hgoes : ∀ p, Sound pidOf w i p → AllSound pidOf (w.become i p) :=
    fun p hp => allSound_become h (.refl w i) rfl hp
  unfold World.step at hstep
  cases hphase : w.phase i with
  | absent | ended =>
    rw [hphase] at hstep
    cases hstep
  | gcList =>
    rw [hphase] at hstep
    cases reply <;> cases hstep
    · exact hgoes _ trivial
    · exact hgoes _ trivial
    · exact hgoes _ trivial
  | gc now names =>
    rw [hphase] at hstep
    cases hstep
    unfold World.collect
    split
    · exact hgoes _ trivial
    · split
      · split_ifs
        · exact hgoes _ trivial
        · exact hgoes _ trivial
      · exact hgoes _ trivial
  | rmList target now names =>
    rw [hphase] at hstep hi
    dsimp only at hstep
    split at hstep
    · rename_i d hd
      cases hstep
      refine hgoes _ ?_
      cases target with
      | lock => exact ⟨List.nodup_dedup _, fun _ => hi⟩
      | tomb o => trivial
    · cases hstep
      refine hgoes _ ?_
      cases target <;> trivial
  | rmFile target files now names =>
    have hbehind : Sound pidOf w i (World.behindRemoval target now names) := by
      cases target <;> trivial
    rw [hphase] at hstep hi
    cases reply with
    | ok random =>
      cases hstep
      exact remove_sound h hlive hok hphase
    | fails | tears random => cases hstep; exact hgoes _ hbehind
  | mkdir | write | wait =>
    rw [hphase] at hstep
    cases reply <;> cases hstep <;> exact hgoes _ trivial
  | rename =>
    rw [hphase] at hstep
    cases reply with
    | ok random =>
      dsimp only at hstep
      split_ifs at hstep with hfree
      · cases hstep
        exact allSound_become h (spares_acquire hfree (some (staged i))) rfl (ownerOf_staged i)
      · cases hstep
        exact hgoes _ trivial
    | fails | tears random => cases hstep; exact hgoes _ trivial
  | look =>
    rw [hphase] at hstep
    dsimp only at hstep
    split at hstep
    · cases hstep
      exact allSound_become h ⟨rfl, fun _ _ _ h => h, fun _ _ _ _ _ _ h => h⟩ rfl trivial
    · cases hstep
      exact hgoes _ trivial
  | probe o =>
    rw [hphase] at hstep
    cases reply with
    | ok random =>
      dsimp only at hstep
      split_ifs at hstep with hdead
      cases hstep
      exact hgoes _ hdead
    | fails | tears random => cases hstep; exact hgoes _ trivial
  | recheck o =>
    rw [hphase] at hstep hi
    cases reply with
    | ok random =>
      dsimp only at hstep
      split_ifs at hstep with howner
      · cases hstep
        exact hgoes _ ⟨hi, .inl howner⟩
      · cases hstep
        exact hgoes _ trivial
    | fails | tears random => cases hstep; exact hgoes _ trivial
  | clock o | inside =>
    rw [hphase] at hstep hi
    cases hstep
    exact hgoes _ hi
  | stampWrite o ms =>
    rw [hphase] at hstep hi
    cases hstep
    exact writeStamp_sound h hi
  | stampRename o random =>
    rw [hphase] at hstep hi
    cases reply with
    | ok random' => cases hstep; exact renameStamp_sound h hi
    | fails | tears random => cases hstep; exact hgoes _ trivial
  | takeOver o =>
    rw [hphase] at hstep hi
    cases reply with
    | ok random =>
      cases hstep
      unfold World.takeOver
      split
      · exact hgoes _ trivial
      · rename_i d hlock
        split_ifs with hfree
        · exact allSound_become h (spares_takeOver hi.1 hi.2 hlock hfree) rfl trivial
        · exact hgoes _ trivial
    | fails | tears random => cases hstep; exact hgoes _ trivial
  | verify o =>
    rw [hphase] at hstep
    cases reply with
    | ok random =>
      dsimp only at hstep
      split_ifs at hstep <;> cases hstep <;> exact hgoes _ trivial
    | fails | tears random => cases hstep; exact hgoes _ trivial
  | putBack o =>
    rw [hphase] at hstep
    cases reply with
    | ok random =>
      cases hstep
      unfold World.putBack
      split
      · exact hgoes _ trivial
      · rename_i d htomb
        split_ifs with hfree
        · exact allSound_become h (spares_putBack htomb hfree) rfl trivial
        · exact hgoes _ trivial
    | fails | tears random => cases hstep; exact hgoes _ trivial
  | leave | relook =>
    rw [hphase] at hstep hi
    cases reply with
    | ok random =>
      dsimp only at hstep
      split_ifs at hstep <;> cases hstep
      · exact hgoes _ hi
      · exact hgoes _ trivial
    | fails => cases hstep; exact hgoes _ trivial
    | tears random => cases hstep; exact hgoes _ trivial
  | letGo =>
    rw [hphase] at hstep hi
    dsimp only at hstep
    split at hstep
    · cases hstep
      exact allSound_become h (spares_release hlive hi none) rfl trivial
    · cases hstep
      exact hgoes _ hi

/-- **Every call stays sound** through every move. -/
theorem sound_next (h : AllSound pidOf w) {move : Move} (hok : ¬ CollectsInUse pidOf w move)
    (hnext : w.next pidOf move = some w') : AllSound pidOf w' := by
  cases move with
  | begins call =>
    unfold World.next at hnext
    dsimp only at hnext
    split_ifs at hnext
    cases hnext
    exact allSound_become h (.refl w call) rfl trivial
  | steps call reply =>
    unfold World.next at hnext
    dsimp only at hnext
    split_ifs at hnext with hdead
    exact sound_step h (by simpa using hdead) hok hnext
  | dies pid =>
    cases hnext
    intro j hlive
    have hmono : ∀ o, w.isDead pidOf o = true → World.isDead pidOf { w with dead := pid :: w.dead } o = true := by
      intro o ho
      unfold World.isDead at ho ⊢
      simp only [List.contains_cons, Bool.or_eq_true]
      exact .inr ho
    have hj : w.isDead pidOf j = false := by
      rw [Bool.eq_false_iff] at hlive ⊢
      exact fun hdead => hlive (hmono j hdead)
    have hsound := h j hj
    change Sound pidOf _ j (w.phase j)
    revert hsound
    generalize w.phase j = p
    intro hsound
    cases p with
    | recheck o => exact hmono o hsound
    | clock o | stampWrite o ms | stampRename o random | takeOver o =>
      exact ⟨hmono o hsound.1, hsound.2⟩
    | rmList target now names => cases target <;> exact hsound
    | rmFile target files now names => cases target <;> exact hsound
    | _ => exact hsound
  | tick ms =>
    cases hnext
    exact h

/-! ### Runs -/

/-- **One holder at a time.**  In every run in which no tomb loses its owner file while a live
contender that confirmed this owner has still to rename, at most one call of a live process is in
its callback, and the lock directory is there with the owner file of the live call that holds it
until that call removes it. -/
theorem one_holder (h : (lockMachine pidOf).Reach (fun w move => ¬ CollectsInUse pidOf w move) w) :
    (∀ i j, w.isDead pidOf i = false → w.isDead pidOf j = false →
      w.phase i = .inside → w.phase j = .inside → i = j) ∧
    ∀ i, w.isDead pidOf i = false → (w.phase i).Holds → ownerOf w.lock = some i := by
  have hsound : AllSound pidOf w := by
    refine h.invariant (fun w hw => ?_) fun w move w' hsound hok hnext => sound_next hsound hok hnext
    have hw : w = {} := hw
    subst hw
    exact fun i _ => trivial
  have hheld : ∀ i, w.isDead pidOf i = false → (w.phase i).Holds → ownerOf w.lock = some i := by
    intro i hlive hholds
    have hi := hsound i hlive
    revert hholds hi
    cases w.phase i with
    | rmList target now names =>
      cases target with
      | lock => exact fun _ hi => hi
      | tomb o => exact fun hholds => hholds.elim
    | inside | leave | letGo | relook => exact fun _ hi => hi
    | _ => exact fun hholds => hholds.elim
  refine ⟨fun i j hi hj hpi hpj => ?_, hheld⟩
  have hown : ownerOf w.lock = some i := hheld i hi (by rw [hpi]; trivial)
  have hother : ownerOf w.lock = some j := hheld j hj (by rw [hpj]; trivial)
  exact Option.some.inj (hown.symm.trans hother)

/-- So many operations of a call, which all succeed. -/
def goes (call n : Nat) : List Move := List.replicate n (.steps call (.ok 0))

/-- **A takeover**: the holder 0 dies, and the call 1 moves its lock and acquires. -/
def takeoverRun : List Move :=
  [.begins 0] ++ goes 0 5 ++ [.dies 0, .begins 1] ++ goes 1 14 ++ goes 1 3

/-- No tomb is collected in this step. -/
def collectsNothing (w : World) : Move → Bool
  | .steps i _ =>
    match w.phase i with
    | .rmFile (.tomb _) _ _ _ => false
    | _ => true
  | _ => true

theorem not_collectsInUse {move : Move} (h : collectsNothing w move = true) :
    ¬ CollectsInUse pidOf w move := by
  cases move with
  | steps i reply =>
    cases reply with
    | ok random =>
      rintro ⟨o, files, now, names, hphase, -⟩
      simp [collectsNothing, hphase] at h
    | fails => exact id
    | tears random => exact id
  | _ => exact id

/-- The holder behind a takeover holds alone. -/
theorem one_holder_takeover : ∃ w : World, w.phase 1 = .inside ∧
    ((∀ i j, w.isDead id i = false → w.isDead id j = false →
      w.phase i = .inside → w.phase j = .inside → i = j) ∧
    ∀ i, w.isDead id i = false → (w.phase i).Holds → ownerOf w.lock = some i) := by
  obtain ⟨w, hw, hp⟩ := (lockMachine id).exists_reach_of_exec
    {} takeoverRun (fun w => w.phase 1 = .inside) rfl
    (Machine.along_of_check collectsNothing (fun _ _ h => not_collectsInUse h) _ (by decide)) (by decide)
  exact ⟨w, of_decide_eq_true hp, one_holder hw⟩

/-- Every contender acts on what it read less than the lifetime of a tomb ago. -/
def prompt (w : World) : Move → Bool
  | .steps i _ =>
    match w.phase i with
    | .probe _ | .recheck _ | .clock _ | .stampWrite _ _ | .stampRename _ _ | .takeOver _ | .verify _
    | .putBack _ => w.now - w.seen i < tombTtlMs
    | _ => true
  | _ => true

/-- A day. -/
def dayMs : Nat := 24 * 60 * 60 * 1000

/-- **A tomb that is old when it is made.**  The call 1 stamps the lock of a dead owner, and moves
it six days later, which is soon enough; two days behind that the call 3 collects the tomb, and the
call 2, which had found the same owner dead on the fourth day, moves the lock that the call 1 holds
by now. -/
def staleStampRun : List Move :=
  [.begins 0] ++ goes 0 5 ++ [.dies 0, .begins 1] ++ goes 1 11 ++
  [.tick (4 * dayMs), .begins 2] ++ goes 2 9 ++
  [.tick (2 * dayMs)] ++ goes 1 6 ++
  [.tick (2 * dayMs), .begins 3] ++ goes 3 9 ++ goes 2 3 ++ goes 3 1

/-- **There may be two holders**, though every contender acts on what it read less than the
lifetime of a tomb ago. -/
theorem two_holders : ∃ w, (lockMachine id).Reach (fun w move => prompt w move = true) w ∧
    w.isDead id 1 = false ∧ w.isDead id 3 = false ∧ w.phase 1 = .inside ∧ w.phase 3 = .inside ∧
    ownerOf w.lock ≠ some 1 := by
  obtain ⟨w, hw, hp⟩ := (lockMachine id).exists_reach_of_exec {} staleStampRun (fun w => w.isDead id 1 = false ∧ w.isDead id 3 = false ∧ w.phase 1 = .inside ∧
      w.phase 3 = .inside ∧ ownerOf w.lock ≠ some 1) rfl
    (Machine.along_of_check prompt (fun _ _ h => h) _ (by decide +kernel)) (by decide +kernel)
  exact ⟨w, hw, of_decide_eq_true hp⟩

end Lock
end LaneBroker
