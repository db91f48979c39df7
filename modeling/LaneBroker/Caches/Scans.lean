/-
# What the scan of an installed tree finds

`collectInstallPathReferences` gives a record only after every file and link that will be
stored was looked at: none holds the end of a placeholder, every install path in one stands
where a path may stand, and what names one is recorded together with the paths it names
(`Collected`).  The placeholders stand between double marks, hold no byte that may come before
a path, and are different for different paths.
-/

import LaneBroker.Caches.Rewrites
import Mathlib.Data.List.Nodup

namespace LaneBroker
namespace Caches
namespace DepsStore

open LaneBroker.Basis
open LaneBroker.Basis.Substitution (cut)

/-! ### Groups -/

theorem InstallPath.ext_bytes {p q : InstallPath} (h : p.bytes = q.bytes) : p = q := by
  obtain ⟨⟨b, hb⟩, hp⟩ := p
  obtain ⟨⟨b', hb'⟩, hq⟩ := q
  obtain rfl : b = b' := h
  rfl

/-- **What the groups of some roles are**: one for each path, with all its roles. -/
structure Grouped (roles : List (Role × InstallPath)) (groups : List Group) : Prop where
  distinct : (groups.map Group.path).Nodup
  sharing : ∀ g ∈ groups,
    g.roles = (roles.filter fun r => r.2 = g.path).map Prod.fst ∧ g.roles ≠ []
  covers : ∀ r ∈ roles, ∃ g ∈ groups, g.path = r.2

theorem Grouped.add {roles : List (Role × InstallPath)} {groups : List Group}
    (h : Grouped roles groups) (r : Role × InstallPath) :
    Grouped (roles ++ [r]) (addRole groups r) := by
  unfold addRole
  split_ifs with hany
  · have hpath : ∀ g : Group,
        (if g.path = r.2 then { g with roles := g.roles ++ [r.1] } else g).path = g.path := by
      intro g
      split_ifs <;> rfl
    refine ⟨?_, fun g hg => ?_, fun q hq => ?_⟩
    · rw [List.map_map]
      have hsame : (Group.path ∘ fun g : Group =>
          if g.path = r.2 then { g with roles := g.roles ++ [r.1] } else g) = Group.path :=
        funext hpath
      rw [hsame]
      exact h.distinct
    · obtain ⟨g, hmem, rfl⟩ := List.mem_map.1 hg
      obtain ⟨hroles, hne⟩ := h.sharing g hmem
      rw [List.filter_append, List.map_append, hpath]
      by_cases hr : g.path = r.2
      · rw [if_pos hr, hroles]
        simp [hr]
      · rw [if_neg hr]
        refine ⟨?_, hne⟩
        have hr' : r.2 ≠ g.path := Ne.symm hr
        rw [hroles]
        simp [hr']
    · rcases List.mem_append.1 hq with hq | hq
      · obtain ⟨g, hg, hgq⟩ := h.covers q hq
        exact ⟨_, List.mem_map_of_mem hg, (hpath g).trans hgq⟩
      · rw [List.mem_singleton.1 hq]
        obtain ⟨g, hg, hgr⟩ := List.any_eq_true.1 hany
        exact ⟨_, List.mem_map_of_mem hg, (hpath g).trans (of_decide_eq_true hgr)⟩
  · have hnew : ∀ g ∈ groups, g.path ≠ r.2 := by
      intro g hg heq
      exact hany (List.any_eq_true.2 ⟨g, hg, decide_eq_true heq⟩)
    refine ⟨?_, fun g hg => ?_, fun q hq => ?_⟩
    · rw [List.map_append, List.nodup_append]
      refine ⟨h.distinct, List.nodup_singleton _, fun p hp q hq => ?_⟩
      obtain ⟨g, hg, rfl⟩ := List.mem_map.1 hp
      rw [List.mem_singleton.1 hq]
      exact hnew g hg
    · rw [List.filter_append, List.map_append]
      rcases List.mem_append.1 hg with hg | hg
      · obtain ⟨hroles, hne⟩ := h.sharing g hg
        refine ⟨?_, hne⟩
        rw [hroles]
        simp [(hnew g hg).symm]
      · rw [List.mem_singleton.1 hg]
        have hnone : (roles.filter fun q => decide (q.2 = r.2)) = [] := by
          rw [List.filter_eq_nil_iff]
          intro q hq heq
          obtain ⟨g, hg, hgq⟩ := h.covers q hq
          exact hnew g hg (hgq.trans (of_decide_eq_true heq))
        simp [hnone]
    · rcases List.mem_append.1 hq with hq | hq
      · obtain ⟨g, hg, hgq⟩ := h.covers q hq
        exact ⟨g, List.mem_append_left _ hg, hgq⟩
      · rw [List.mem_singleton.1 hq]
        exact ⟨⟨[r.1], r.2⟩, List.mem_append_right _ (List.mem_singleton_self _), rfl⟩

theorem grouped_groupsOf (roles : List (Role × InstallPath)) : Grouped roles (groupsOf roles) := by
  induction roles using List.reverseRecOn with
  | nil => exact ⟨List.nodup_nil, nofun, nofun⟩
  | append_singleton roles r ih =>
    rw [groupsOf, List.foldl_append]
    exact ih.add r

theorem mem_roles_iff {roles : List (Role × InstallPath)} {groups : List Group}
    (h : Grouped roles groups) {g : Group} (hg : g ∈ groups) {role : Role} :
    role ∈ g.roles ↔ (role, g.path) ∈ roles := by
  rw [(h.sharing g hg).1, List.mem_map]
  constructor
  · rintro ⟨⟨role', path⟩, hmem, rfl⟩
    rw [List.mem_filter, decide_eq_true_iff] at hmem
    rw [← hmem.2]
    exact hmem.1
  · intro hmem
    exact ⟨(role, g.path), by simp [hmem], rfl⟩

/-- No role has two paths. -/
theorem nodup_installPathRoles (paths : InstallPaths) :
    ((installPathRoles paths).map Prod.fst).Nodup := by
  cases htmpdir : paths.env .tmpdir <;> cases htmp : paths.env .tmp <;>
    cases htemp : paths.env .temp <;>
    simp [installPathRoles, perRunPathEnvNames, htmpdir, htmp, htemp]

theorem group_ext {groups : List Group} (h : (groups.map Group.path).Nodup) {g g' : Group}
    (hg : g ∈ groups) (hg' : g' ∈ groups) (heq : g.path = g'.path) : g = g' :=
  List.inj_on_of_nodup_map h hg hg' heq

/-! ### Placeholders -/

/-- The byte of `@`. -/
def mark : UInt8 := 0x40

/-- What stands between the marks of a placeholder. -/
def bodyOf (roles : List Role) (nonce : Nonce) : List UInt8 :=
  ascii "LANE_PREFIX_" ++ ((ascii "+").intercalate (roles.map Role.name) ++
    (ascii "_" ++ nonce.hex))

theorem tokenFor_eq (roles : List Role) (nonce : Nonce) :
    tokenFor roles nonce = Substitution.token mark (bodyOf roles nonce) := by
  have hfront : ascii "@@LANE_PREFIX_" = mark :: mark :: ascii "LANE_PREFIX_" := by decide
  have hback : ascii "@@" = [mark, mark] := by decide
  simp only [tokenFor, Substitution.token, bodyOf, hfront, hback, List.cons_append,
    List.append_assoc]

theorem mem_intercalate {α : Type} {sep : List α} {ls : List (List α)} {x : α}
    (h : x ∈ sep.intercalate ls) : x ∈ sep ∨ ∃ l ∈ ls, x ∈ l := by
  induction ls with
  | nil => cases h
  | cons l ls ih =>
    cases ls with
    | nil =>
      rw [List.intercalate_singleton] at h
      exact .inr ⟨l, List.mem_singleton_self l, h⟩
    | cons l' ls =>
      rw [List.intercalate_cons_cons, List.mem_append, List.mem_append] at h
      rcases h with (h | h) | h
      · exact .inr ⟨l, List.mem_cons_self, h⟩
      · exact .inl h
      · exact (ih h).imp_right fun ⟨l', hl', hx⟩ => ⟨l', List.mem_cons_of_mem _ hl', hx⟩

/-- A byte that is neither the mark nor a leader, and ASCII. -/
def Inert (b : UInt8) : Prop := b ≠ mark ∧ ¬ Leads b ∧ b < 0x80

/-- `Inert`, as a test. -/
def inert (b : UInt8) : Bool := b != mark && !pathLeaders.contains b && Nat.blt b.toNat 0x80

theorem inert_of_all {bytes : List UInt8} (h : bytes.all inert = true) : ∀ b ∈ bytes, Inert b := by
  intro b hb
  have hinert := List.all_eq_true.1 h b hb
  simpa [inert, Inert, Leads, UInt8.lt_iff_toNat_lt, and_assoc] using hinert

theorem inert_of_isHex {b : UInt8} (h : IsHex b) : Inert b := by
  refine ⟨?_, fun hlead => ?_, ?_⟩
  · rintro rfl
    revert h
    decide
  · have hnone : pathLeaders.all (fun b => !decide (IsHex b)) = true := by decide
    have hb := List.all_eq_true.1 hnone b (List.contains_iff_mem.1 hlead)
    simp [h] at hb
  · rcases h with ⟨-, h⟩ | ⟨-, h⟩
    · exact UInt8.lt_of_le_of_lt h (UInt8.lt_iff_toNat_lt.2 (Nat.le_of_ble_eq_true rfl))
    · exact UInt8.lt_of_le_of_lt h (UInt8.lt_iff_toNat_lt.2 (Nat.le_of_ble_eq_true rfl))

theorem inert_bodyOf (roles : List Role) (nonce : Nonce) :
    ∀ b ∈ bodyOf roles nonce, Inert b := by
  have hmarker : ∀ b ∈ ascii "LANE_PREFIX_", Inert b := inert_of_all (by decide)
  have hplus : ∀ b ∈ ascii "+", Inert b := inert_of_all (by decide)
  have hbar : ∀ b ∈ ascii "_", Inert b := inert_of_all (by decide)
  have hname : ∀ role : Role, ∀ b ∈ role.name, Inert b := by
    intro role
    refine inert_of_all ?_
    cases role <;> decide
  intro b hb
  simp only [bodyOf, List.mem_append] at hb
  rcases hb with hb | hb | hb | hb
  · exact hmarker b hb
  · rcases mem_intercalate hb with hb | ⟨l, hl, hb⟩
    · exact hplus b hb
    · obtain ⟨role, -, rfl⟩ := List.mem_map.1 hl
      exact hname role b hb
  · exact hbar b hb
  · exact inert_of_isHex (nonce.isNonce.2 b hb)

theorem mark_not_mem_bodyOf (roles : List Role) (nonce : Nonce) : mark ∉ bodyOf roles nonce :=
  fun h => (inert_bodyOf roles nonce mark h).1 rfl

/-- **No byte of a placeholder may come before a path.** -/
theorem not_leads_token (roles : List Role) (nonce : Nonce) :
    ∀ b ∈ Substitution.token mark (bodyOf roles nonce), ¬ Leads b := by
  have hmark : ¬ Leads mark := by
    unfold Leads
    decide
  intro b hb
  simp only [Substitution.token, List.mem_cons, List.mem_append, List.not_mem_nil, or_false] at hb
  rcases hb with rfl | rfl | hb | rfl | rfl
  · exact hmark
  · exact hmark
  · exact (inert_bodyOf roles nonce b hb).2.1
  · exact hmark
  · exact hmark

/-- A placeholder ends in the tail. -/
theorem tail_infix_tokenFor (roles : List Role) (nonce : Nonce) :
    tokenTail nonce <:+: tokenFor roles nonce :=
  ⟨ascii "@@LANE_PREFIX_" ++ (ascii "+").intercalate (roles.map Role.name), [], by
    simp [tokenFor, tokenTail]⟩

theorem tokenTail_ne_nil (nonce : Nonce) : tokenTail nonce ≠ [] := by
  have hbar : ascii "_" = [0x5f] := by decide
  simp [tokenTail, hbar]

theorem name_injective : Function.Injective Role.name := by
  intro a b h
  revert h
  cases a <;> cases b <;> decide

/-- **Roles are read back from their placeholder.** -/
theorem tokenFor_inj {roles roles' : List Role} {nonce : Nonce} (hne : roles ≠ [])
    (hne' : roles' ≠ []) (h : tokenFor roles nonce = tokenFor roles' nonce) : roles = roles' := by
  have hplus : ascii "+" = [0x2b] := by decide
  have hname : ∀ roles : List Role, ∀ l ∈ roles.map Role.name, (0x2b : UInt8) ∉ l := by
    intro roles l hl
    obtain ⟨role, -, rfl⟩ := List.mem_map.1 hl
    cases role <;> decide
  rw [tokenFor, tokenFor, List.append_cancel_left_eq, List.append_cancel_right_eq, hplus] at h
  have hsplit := congrArg (List.splitOn (0x2b : UInt8)) h
  rw [List.splitOn_intercalate _ (hname roles) (by simp [hne]),
    List.splitOn_intercalate _ (hname roles') (by simp [hne'])] at hsplit
  exact List.map_injective_iff.2 name_injective hsplit

/-- **Different groups have different placeholders.** -/
theorem group_of_token {roles : List (Role × InstallPath)} {groups : List Group}
    (h : Grouped roles groups) (hroles : (roles.map Prod.fst).Nodup) {nonce : Nonce} {g g' : Group}
    (hg : g ∈ groups) (hg' : g' ∈ groups) (heq : tokenFor g.roles nonce = tokenFor g'.roles nonce) :
    g = g' := by
  have hsame := tokenFor_inj (h.sharing g hg).2 (h.sharing g' hg').2 heq
  obtain ⟨role, hrole⟩ := List.exists_mem_of_ne_nil _ (h.sharing g hg).2
  have hin := (mem_roles_iff h hg).1 hrole
  have hin' := (mem_roles_iff h hg').1 (hsame ▸ hrole)
  have hpath := List.inj_on_of_nodup_map hroles hin hin' rfl
  exact group_ext h.distinct hg hg' (Prod.ext_iff.1 hpath).2

/-! ### The walk -/

theorem mem_inits_tail_iff {rel q : Rel} : q ∈ rel.inits.tail ↔ q ≠ [] ∧ q <+: rel := by
  cases rel with
  | nil => simp
  | cons seg rel =>
    rw [List.inits_cons, List.tail_cons, List.mem_map]
    constructor
    · rintro ⟨q, hq, rfl⟩
      exact ⟨by simp, List.cons_prefix_cons.2 ⟨rfl, (List.mem_inits _ _).1 hq⟩⟩
    · rintro ⟨hne, hpre⟩
      obtain ⟨s, q, rfl⟩ := List.exists_cons_of_ne_nil hne
      obtain ⟨rfl, htail⟩ := List.cons_prefix_cons.1 hpre
      exact ⟨q, (List.mem_inits _ _).2 htail, rfl⟩

theorem onTheWay_iff {p : Rel → Bool} {rel : Rel} :
    onTheWay p rel = true ↔ ∃ q, q ≠ [] ∧ q <+: rel ∧ p q = true := by
  unfold onTheWay
  rw [List.any_eq_true]
  constructor
  · rintro ⟨q, hq, hp⟩
    obtain ⟨hne, hpre⟩ := mem_inits_tail_iff.1 hq
    exact ⟨q, hne, hpre, hp⟩
  · rintro ⟨q, hne, hpre, hp⟩
    exact ⟨q, mem_inits_tail_iff.2 ⟨hne, hpre⟩, hp⟩

/-- **What a scan knows of a text** at a path of the stored tree. -/
structure Sound (groups : List Group) (nonce : Nonce) (scan : Scan)
    (accept : List UInt8 → Nat → Nat → Bool) (entry : Rel × Kind) (text : List UInt8) : Prop where
  fresh : ¬ tokenTail nonce <:+: text
  accepted : accepted accept text 0 (cut (groups.map fun g => g.path.bytes) text) = true
  found : ∀ g ∈ groups, g.path.bytes <:+: text → g.path ∈ scan.found
  recorded : (∀ g ∈ groups, ¬ g.path.bytes <:+: text) ∨ entry ∈ scan.entries

/-- **What a scan knows of an entry** of the stored tree. -/
def Looked (groups : List Group) (nonce : Nonce) (scan : Scan) (e : Entry) : Prop :=
  match e.node with
  | .file _ content => Sound groups nonce scan strictOccurrence (e.path, .text) content
  | .symlink target =>
    Sound groups nonce scan anchoredOccurrence (e.path, .symlink) (readlinkSync target)
  | .dir _ | .other => True

/-- The scan goes on: it forgets nothing. -/
structure Grows (scan scan' : Scan) : Prop where
  found : scan.found ⊆ scan'.found
  entries : scan.entries ⊆ scan'.entries

theorem Grows.refl (scan : Scan) : Grows scan scan :=
  ⟨List.Subset.refl _, List.Subset.refl _⟩

theorem Grows.trans {a b c : Scan} (h : Grows a b) (h' : Grows b c) : Grows a c :=
  ⟨fun _ hp => h'.found (h.found hp), fun _ he => h'.entries (h.entries he)⟩

theorem Looked.mono {groups : List Group} {nonce : Nonce} {scan scan' : Scan} {e : Entry}
    (h : Looked groups nonce scan e) (hgrows : Grows scan scan') :
    Looked groups nonce scan' e := by
  obtain ⟨path, node⟩ := e
  have hsound : ∀ {accept entry text}, Sound groups nonce scan accept entry text →
      Sound groups nonce scan' accept entry text := fun hs =>
    ⟨hs.fresh, hs.accepted, fun g hg hin => hgrows.found (hs.found g hg hin),
      hs.recorded.imp_right fun hmem => hgrows.entries hmem⟩
  cases node with
  | file mode content => exact hsound h
  | symlink target => exact hsound h
  | dir mode => trivial
  | other => trivial

namespace Scanned

variable {c : Scanned} {scan scan' : Scan}

theorem pairs_old : c.pairs.map Pair.old = c.raw := by
  rw [pairs, raw, List.map_map]
  rfl

theorem raw_ne_nil : ∀ w ∈ c.raw, w ≠ [] := by
  intro w hw
  obtain ⟨g, -, rfl⟩ := List.mem_map.1 hw
  exact g.path.given

theorem nodup_raw (h : (c.groups.map Group.path).Nodup) : c.raw.Nodup := by
  have hraw : c.raw = (c.groups.map Group.path).map fun p => p.bytes := by
    rw [raw, List.map_map]
    rfl
  rw [hraw]
  exact h.map fun _ _ => InstallPath.ext_bytes

/-- What the scan asks of the occurrences in a text. -/
theorem rewrite_ne_none_iff (h : (c.groups.map Group.path).Nodup)
    (accept : List UInt8 → Nat → Nat → Bool) (text : List UInt8) :
    rewritePrefixes text c.pairs accept ≠ none ↔ accepted accept text 0 (cut c.raw text) = true := by
  have hold : ∀ p ∈ c.pairs, p.old ≠ [] := by
    intro p hp
    exact raw_ne_nil p.old (pairs_old (c := c) ▸ List.mem_map_of_mem hp)
  rw [rewritePrefixes_eq hold (pairs_old (c := c) ▸ nodup_raw h), pairs_old]
  split_ifs with hacc
  · simp [hacc]
  · simp [hacc]

/-- A text that names no install path has every occurrence accepted. -/
theorem accepted_of_unnamed {accept : List UInt8 → Nat → Nat → Bool} {text : List UInt8}
    (h : ∀ w ∈ c.raw, ¬ w <:+: text) : accepted accept text 0 (cut c.raw text) = true := by
  have hcut : cut c.raw text = cut [] text := by
    refine Substitution.cut_congr fun w hw => ?_
    simp [show w ∉ c.raw from fun hmem => h w hmem hw]
  have hkeep : cut [] (text ++ []) = text.map .keep ++ cut [] [] :=
    Substitution.cut_append fun _ _ _ => Substitution.longest_eq_none_iff.2 nofun
  rw [List.append_nil] at hkeep
  rw [hcut, hkeep, accepted_map_keep]
  simp [accepted, Substitution.cut]

theorem raw_mem {g : Group} (hg : g ∈ c.groups) : g.path.bytes ∈ c.raw :=
  List.mem_map.2 ⟨g, hg, rfl⟩

/-- What a step of the walk adds to the entries. -/
def Adds (scan scan' : Scan) (path : Rel) : Prop :=
  ∃ more, scan'.entries = scan.entries ++ more ∧ (more.map Prod.fst).Sublist [path]

theorem adds_none (scan : Scan) (path : Rel) : Adds scan scan path :=
  ⟨[], by simp, by simp⟩

theorem scanLink_ok (hnodup : (c.groups.map Group.path).Nodup) {rel : Rel} {target : List UInt8}
    (h : c.scanLink scan rel target = .ok scan') :
    Grows scan scan' ∧ Adds scan scan' (c.under ++ rel) ∧
      Sound c.groups c.nonce scan' anchoredOccurrence (c.under ++ rel, .symlink)
        (readlinkSync target) := by
  unfold scanLink at h
  dsimp only at h
  split_ifs at h with hkeeps hrefused htail hbad hhit
  · obtain rfl := Except.ok.inj h
    have hacc : accepted anchoredOccurrence (readlinkSync target) 0
        (cut c.raw (readlinkSync target)) = true :=
      (rewrite_ne_none_iff hnodup _ _).1 fun hnone => hbad ⟨hhit, hnone⟩
    refine ⟨⟨List.subset_append_left _ _, List.subset_append_left _ _⟩,
      ⟨[(c.under ++ rel, .symlink)], rfl, by simp⟩, fun hin => htail (includes_iff.2 hin), hacc,
      fun g hg hin => ?_, .inr (by simp)⟩
    refine List.mem_append_right _ (List.mem_map.2 ⟨g, ?_, rfl⟩)
    exact List.mem_filter.2 ⟨hg, includes_iff.2 hin⟩
  · obtain rfl := Except.ok.inj h
    have hunnamed : ∀ w ∈ c.raw, ¬ w <:+: readlinkSync target := fun w hw hin =>
      hhit (List.any_eq_true.2 ⟨w, hw, includes_iff.2 hin⟩)
    exact ⟨.refl _, adds_none _ _, fun hin => htail (includes_iff.2 hin),
      accepted_of_unnamed hunnamed, fun g hg hin => absurd hin (hunnamed _ (raw_mem hg)),
      .inl fun g hg => hunnamed _ (raw_mem hg)⟩

theorem scanFile_ok (hnodup : (c.groups.map Group.path).Nodup) {rel : Rel} {content : List UInt8}
    (h : c.scanFile scan rel content = .ok scan') :
    Grows scan scan' ∧ Adds scan scan' (c.under ++ rel) ∧
      Sound c.groups c.nonce scan' strictOccurrence (c.under ++ rel, .text) content := by
  have hhits : ∀ n, n ∈ fileNeedleHits content (c.raw ++ [tokenTail c.nonce]) ↔
      n ∈ c.raw ++ [tokenTail c.nonce] ∧ n <:+: content := by
    intro n
    refine mem_fileNeedleHits_iff fun n hn => ?_
    rcases List.mem_append.1 hn with hn | hn
    · exact raw_ne_nil n hn
    · rw [List.mem_singleton.1 hn]
      exact tokenTail_ne_nil _
  have hraw : ∀ g ∈ c.groups, g.path.bytes <:+: content →
      g.path.bytes ∈ fileNeedleHits content (c.raw ++ [tokenTail c.nonce]) := fun g hg hin =>
    (hhits _).2 ⟨List.mem_append_left _ (raw_mem hg), hin⟩
  unfold scanFile at h
  dsimp only at h
  split_ifs at h with htail hnone htext hbad
  · obtain rfl := Except.ok.inj h
    have hunnamed : ∀ g ∈ c.groups, ¬ g.path.bytes <:+: content := fun g hg hin => by
      have := hraw g hg hin
      rw [hnone] at this
      cases this
    have hfresh : ¬ tokenTail c.nonce <:+: content := fun hin =>
      htail (List.contains_iff_mem.2 ((hhits _).2 ⟨by simp, hin⟩))
    refine ⟨.refl _, adds_none _ _, hfresh, accepted_of_unnamed fun w hw => ?_,
      fun g hg hin => absurd hin (hunnamed g hg), .inl hunnamed⟩
    obtain ⟨g, hg, rfl⟩ := List.mem_map.1 hw
    exact hunnamed g hg
  · obtain rfl := Except.ok.inj h
    have hfresh : ¬ tokenTail c.nonce <:+: content := fun hin =>
      htail (List.contains_iff_mem.2 ((hhits _).2 ⟨by simp, hin⟩))
    refine ⟨⟨List.subset_append_left _ _, List.subset_append_left _ _⟩,
      ⟨[(c.under ++ rel, .text)], rfl, by simp⟩, hfresh, (rewrite_ne_none_iff hnodup _ _).1 hbad,
      fun g hg hin => ?_, .inr (by simp)⟩
    refine List.mem_append_right _ (List.mem_map.2 ⟨g, ?_, rfl⟩)
    exact List.mem_filter.2 ⟨hg, List.contains_iff_mem.2 (hraw g hg hin)⟩

/-- The walk passes the entry by: it is a workspace link, or a build artifact. -/
def Passed (c : Scanned) (e : Entry) : Prop :=
  (c.under = [] ∧ e.path ∈ c.linkNames) ∨ isRegenerableBuildArtifact c.base e.path = true

theorem scanEntry_ok (hnodup : (c.groups.map Group.path).Nodup) {e : Entry}
    (h : c.scanEntry scan e = .ok scan') :
    Grows scan scan' ∧ Adds scan scan' (c.under ++ e.path) ∧
      (Passed c e ∨ Looked c.groups c.nonce scan' ⟨c.under ++ e.path, e.node⟩) := by
  unfold scanEntry at h
  split_ifs at h with hlink hpruned
  · obtain rfl := Except.ok.inj h
    exact ⟨.refl _, adds_none _ _, .inl (.inl ⟨hlink.1, hlink.2.2⟩)⟩
  · obtain rfl := Except.ok.inj h
    exact ⟨.refl _, adds_none _ _, .inl (.inr hpruned)⟩
  · obtain ⟨path, node⟩ := e
    cases node with
    | file mode content =>
      obtain ⟨hgrows, hadds, hsound⟩ := scanFile_ok hnodup h
      exact ⟨hgrows, hadds, .inr hsound⟩
    | symlink target =>
      obtain ⟨hgrows, hadds, hsound⟩ := scanLink_ok hnodup h
      exact ⟨hgrows, hadds, .inr hsound⟩
    | dir mode | other =>
      obtain rfl := Except.ok.inj h
      exact ⟨.refl _, adds_none _ _, .inr trivial⟩

/-- What a walk adds to the entries. -/
def AddsAll (scan scan' : Scan) (paths : List Rel) : Prop :=
  ∃ more, scan'.entries = scan.entries ++ more ∧ (more.map Prod.fst).Sublist paths

/-- **A walk that ends well has looked at every entry that it does not pass by.** -/
theorem walk_ok (hnodup : (c.groups.map Group.path).Nodup) (h : c.walk scan = .ok scan') :
    Grows scan scan' ∧
      AddsAll scan scan' (c.base.entries.map fun e => c.under ++ e.path) ∧
      ∀ e ∈ c.visited, Passed c e ∨ Looked c.groups c.nonce scan' ⟨c.under ++ e.path, e.node⟩ := by
  have hrun := Results.foldlM_ok (I := fun done s => Grows scan s ∧
      AddsAll scan s (done.map fun e => c.under ++ e.path) ∧
      ∀ e ∈ done, Passed c e ∨ Looked c.groups c.nonce s ⟨c.under ++ e.path, e.node⟩)
    ⟨.refl _, ⟨[], by simp, by simp⟩, nofun⟩
    (fun done e _ s s' _ ⟨hgrows, ⟨more, hmore, hsub⟩, hall⟩ hstep => by
      obtain ⟨hgrows', ⟨more', hmore', hsub'⟩, hone⟩ := scanEntry_ok hnodup hstep
      refine ⟨hgrows.trans hgrows', ⟨more ++ more', by rw [hmore', hmore, List.append_assoc], ?_⟩,
        fun d hd => ?_⟩
      · rw [List.map_append, List.map_append]
        exact hsub.append hsub'
      · rcases List.mem_append.1 hd with hd | hd
        · exact (hall d hd).imp_right fun hl => hl.mono hgrows'
        · rw [List.mem_singleton.1 hd]
          exact hone) h
  obtain ⟨hgrows, ⟨more, hmore, hsub⟩, hall⟩ := hrun
  exact ⟨hgrows, ⟨more, hmore, hsub.trans ((List.filter_sublist).map _)⟩, hall⟩

end Scanned

end DepsStore
end Caches
end LaneBroker
