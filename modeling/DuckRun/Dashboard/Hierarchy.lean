import DuckRun.Dashboard.ProjectEndpoints
import DuckRun.Lib.Forest
/-!
# The hierarchy invariant

What the group tables stand for: a forest whose paths and depths are spelled
out in every row. `Inv` is the form the handlers keep; `WellFormed` is what a
reader of the tables relies on, and follows from it (`inv_wellFormed`).
-/

namespace DuckRun.Dashboard

open DuckRun.Lib GroupEndpoints

/-- The parent pointers the committed group rows spell out. -/
def Store.pointers (s : Store) : Pointers Guid := fun id => (s.findGroup id).map Group.parentGroupId

/-- Row `g` sits under `p` (or at the top): its path and its depth say so. -/
def PlacedUnder (g : Group) (p : Option Group) : Prop :=
  g.parentGroupId = p.map Group.id ∧ g.fullPath = p.elim g.slug fun p => p.fullPath ++ '/' :: g.slug

structure Inv (s : Store) : Prop where
  ids : (s.groups.map Group.id).Nodup
  placed : ∀ g ∈ s.groups, ∃ p : Option Group, (∀ q ∈ p, q ∈ s.groups) ∧ PlacedUnder g p
  /-- Depths are counted in separators, so the parent's depth need not be mentioned. -/
  depths : ∀ g ∈ s.groups, g.depth = g.fullPath.count '/' ∧ g.depth ≤ maxDepth
  slugs : ∀ g ∈ s.groups, g.slug ≠ [] ∧ '/' ∉ g.slug
  siblings : ∀ g ∈ s.groups, ∀ h ∈ s.groups, g.parentGroupId = h.parentGroupId → g.slug = h.slug → g = h
  members : ∀ m ∈ s.groupMembers, ∃ g ∈ s.groups, g.id = m.groupId
  projectIds : (s.projects.map Project.id).Nodup
  projectGroups : ∀ p ∈ s.projects, ∀ gid, p.groupId = some gid → ∃ g ∈ s.groups, g.id = gid
  projectSlugs : ∀ p ∈ s.projects, ∀ q ∈ s.projects, p.groupId = q.groupId → p.slug = q.slug → p = q

structure WellFormed (s : Store) : Prop where
  /-- Every parent chain ends at a group without a parent ... -/
  rooted : ∀ g ∈ s.groups, EndsAtRoot s.pointers g.id
  /-- ... and never runs into itself. -/
  acyclic : ∀ g ∈ s.groups, ∀ p, g.parentGroupId = some p → ¬ Below s.pointers g.id p
  parents : ∀ g ∈ s.groups, ∀ p, g.parentGroupId = some p → ∃ h ∈ s.groups, h.id = p
  projectGroups : ∀ p ∈ s.projects, ∀ gid, p.groupId = some gid → ∃ g ∈ s.groups, g.id = gid
  members : ∀ m ∈ s.groupMembers, ∃ g ∈ s.groups, g.id = m.groupId
  topLevel : ∀ g ∈ s.groups, g.parentGroupId = none → g.depth = 0 ∧ g.fullPath = g.slug
  nested : ∀ g ∈ s.groups, ∀ h ∈ s.groups, g.parentGroupId = some h.id →
    g.depth = h.depth + 1 ∧ g.fullPath = h.fullPath ++ '/' :: g.slug
  depths : ∀ g ∈ s.groups, g.depth ≤ maxDepth
  slugs : ∀ g ∈ s.groups, g.slug ≠ [] ∧ '/' ∉ g.slug
  ids : (s.groups.map Group.id).Nodup
  siblings : ∀ g ∈ s.groups, ∀ h ∈ s.groups, g.parentGroupId = h.parentGroupId → g.slug = h.slug → g = h
  paths : ∀ g ∈ s.groups, ∀ h ∈ s.groups, g.fullPath = h.fullPath → g = h
  projectSlugs : ∀ p ∈ s.projects, ∀ q ∈ s.projects, p.groupId = q.groupId → p.slug = q.slug → p = q

/-! ## Reading the tables -/

theorem findGroup_mem {s : Store} {id : Guid} {g : Group} (h : s.findGroup id = some g) :
    g ∈ s.groups ∧ g.id = id := find_row_mem h

theorem findGroup_iff {s : Store} (hn : (s.groups.map Group.id).Nodup) {id : Guid} {g : Group} :
    s.findGroup id = some g ↔ g ∈ s.groups ∧ g.id = id := find_row_iff hn id g

theorem findProject_mem {s : Store} {id : Guid} {p : Project} (h : s.findProject id = some p) :
    p ∈ s.projects ∧ p.id = id := find_row_mem h

theorem pointers_mem {s : Store} (hn : (s.groups.map Group.id).Nodup) {g : Group} (hg : g ∈ s.groups) :
    s.pointers g.id = some g.parentGroupId := by
  rw [Store.pointers, (findGroup_iff hn).2 ⟨hg, rfl⟩]
  rfl

theorem startsWith_iff (path : Text) (g : Group) : startsWith path g = true ↔ path ++ ['/'] <+: g.fullPath := by
  simp [startsWith, List.isPrefixOf_iff_prefix]

/-- A row never starts with its own path and a slash. -/
theorem startsWith_self (g : Group) : startsWith g.fullPath g = false := by
  cases h : startsWith g.fullPath g with
  | false => rfl
  | true =>
    have hl := ((startsWith_iff _ _).1 h).length_le
    simp at hl

/-! ## What the invariant says about paths -/

theorem PlacedUnder.ne_slug {g h : Group} {q : Group} (hg : '/' ∉ g.slug) (h1 : PlacedUnder g none)
    (h2 : PlacedUnder h (some q)) : g.fullPath ≠ h.fullPath := by
  intro he
  apply hg
  have h1' : g.fullPath = g.slug := h1.2
  have h2' : h.fullPath = q.fullPath ++ '/' :: h.slug := h2.2
  rw [← h1', he, h2']
  simp

/-- A full path names at most one group. -/
theorem Inv.path_inj {s : Store} (hi : Inv s) : ∀ n, ∀ g ∈ s.groups, ∀ h ∈ s.groups,
    g.fullPath.length ≤ n → g.fullPath = h.fullPath → g = h := by
  intro n
  induction n with
  | zero =>
    intro g hg h hh hl he
    obtain ⟨p, -, -, hp⟩ := hi.placed g hg
    have := (hi.slugs g hg).1
    cases p <;> simp_all
  | succ n ih =>
    intro g hg h hh hl he
    obtain ⟨p, hpm, hp⟩ := hi.placed g hg
    obtain ⟨q, hqm, hq⟩ := hi.placed h hh
    have hgs := hi.slugs g hg
    have hhs := hi.slugs h hh
    cases p with
    | none =>
      cases q with
      | none => exact hi.siblings g hg h hh (hp.1.trans hq.1.symm) (hp.2.symm.trans (he.trans hq.2))
      | some q => exact absurd he (hp.ne_slug hgs.2 hq)
    | some p =>
      cases q with
      | none => exact absurd he.symm (hq.ne_slug hhs.2 hp)
      | some q =>
        have hp2 : g.fullPath = p.fullPath ++ '/' :: g.slug := hp.2
        have hq2 : h.fullPath = q.fullPath ++ '/' :: h.slug := hq.2
        obtain ⟨hpath, hslug⟩ := Lib.path_inj hgs.2 hhs.2 (hp2 ▸ hq2 ▸ he)
        have hpl : p.fullPath.length ≤ n := by
          have := congrArg List.length hp2
          simp only [List.length_append, List.length_cons] at this
          omega
        have hpq : p = q := ih p (hpm p rfl) q (hqm q rfl) hpl hpath
        exact hi.siblings g hg h hh (hp.1.trans (hpq ▸ hq.1.symm)) hslug

theorem Inv.paths {s : Store} (hi : Inv s) : ∀ g ∈ s.groups, ∀ h ∈ s.groups, g.fullPath = h.fullPath → g = h :=
  fun g hg h hh he => hi.path_inj _ g hg h hh le_rfl he

theorem Inv.id_inj {s : Store} (hi : Inv s) {g h : Group} (hg : g ∈ s.groups) (hh : h ∈ s.groups)
    (he : g.id = h.id) : g = h := List.inj_on_of_nodup_map hi.ids hg hh he

/-- An id names at most one parent. -/
theorem Inv.parent_unique {s : Store} (hi : Inv s) {p q : Option Group} (hp : ∀ x ∈ p, x ∈ s.groups)
    (hq : ∀ x ∈ q, x ∈ s.groups) (h : p.map Group.id = q.map Group.id) : p = q := by
  cases p with
  | none =>
    cases q with
    | none => rfl
    | some y => cases h
  | some x =>
    cases q with
    | none => cases h
    | some y => rw [hi.id_inj (hp x rfl) (hq y rfl) (Option.some.inj h)]

/-- The row a parent pointer names is the one the path was spelled from. -/
theorem Inv.placed_under {s : Store} (hi : Inv s) {g p : Group} (hg : g ∈ s.groups) (hp : p ∈ s.groups)
    (h : g.parentGroupId = some p.id) : g.fullPath = p.fullPath ++ '/' :: g.slug := by
  obtain ⟨q, hqm, hq⟩ := hi.placed g hg
  cases q with
  | none => rw [hq.1] at h; cases h
  | some q =>
    have hid : q.id = p.id := Option.some.inj (hq.1.symm.trans h)
    rw [← hi.id_inj (hqm q rfl) hp hid]
    exact hq.2

theorem Inv.depth_nonneg {s : Store} (hi : Inv s) {g : Group} (hg : g ∈ s.groups) : 0 ≤ g.depth := by
  rw [(hi.depths g hg).1]
  exact Int.natCast_nonneg _

theorem Inv.depth_child {s : Store} (hi : Inv s) {g p : Group} (hg : g ∈ s.groups) (hp : p ∈ s.groups)
    (h : g.parentGroupId = some p.id) : g.depth = p.depth + 1 := by
  rw [(hi.depths g hg).1, (hi.depths p hp).1, hi.placed_under hg hp h, count_child (hi.slugs g hg).2]
  simp

/-- Chains end because depths go down by one. -/
theorem Inv.rooted {s : Store} (hi : Inv s) : ∀ g ∈ s.groups, EndsAtRoot s.pointers g.id := by
  suffices h : ∀ n : Nat, ∀ g ∈ s.groups, g.depth = n → EndsAtRoot s.pointers g.id by
    intro g hg
    exact h g.depth.toNat g hg (Int.toNat_of_nonneg (hi.depth_nonneg hg)).symm
  intro n
  induction n with
  | zero =>
    intro g hg h0
    obtain ⟨p, hpm, hp⟩ := hi.placed g hg
    cases p with
    | none => exact .root (by rw [pointers_mem hi.ids hg, hp.1]; rfl)
    | some p =>
      have := hi.depth_child hg (hpm p rfl) hp.1
      have := hi.depth_nonneg (hpm p rfl)
      omega
  | succ n ih =>
    intro g hg hd
    obtain ⟨p, hpm, hp⟩ := hi.placed g hg
    cases p with
    | none => exact .root (by rw [pointers_mem hi.ids hg, hp.1]; rfl)
    | some p =>
      have := hi.depth_child hg (hpm p rfl) hp.1
      exact .child (by rw [pointers_mem hi.ids hg, hp.1]; rfl) (ih p (hpm p rfl) (by push_cast at hd; omega))

theorem Inv.parents {s : Store} (hi : Inv s) {g : Group} (hg : g ∈ s.groups) {p : Guid}
    (h : g.parentGroupId = some p) : ∃ q ∈ s.groups, q.id = p := by
  obtain ⟨q, hqm, hq⟩ := hi.placed g hg
  cases q with
  | none => rw [hq.1] at h; cases h
  | some q => exact ⟨q, hqm q rfl, Option.some.inj (hq.1.symm.trans h)⟩

theorem inv_wellFormed {s : Store} (hi : Inv s) : WellFormed s where
  rooted := hi.rooted
  acyclic g hg p hp := (hi.rooted g hg).no_cycle p (by rw [pointers_mem hi.ids hg, hp])
  parents g hg p hp := hi.parents hg hp
  projectGroups := hi.projectGroups
  members := hi.members
  topLevel g hg h := by
    obtain ⟨p, -, hp⟩ := hi.placed g hg
    cases p with
    | none =>
      have hpath : g.fullPath = g.slug := hp.2
      refine ⟨?_, hpath⟩
      rw [(hi.depths g hg).1, hpath, List.count_eq_zero_of_not_mem (hi.slugs g hg).2]
      rfl
    | some p => rw [hp.1] at h; cases h
  nested g hg h hh he := ⟨hi.depth_child hg hh he, hi.placed_under hg hh he⟩
  depths g hg := (hi.depths g hg).2
  slugs := hi.slugs
  ids := hi.ids
  siblings := hi.siblings
  paths := hi.paths
  projectSlugs := hi.projectSlugs

theorem inv_empty : Inv Store.empty := by
  constructor <;> simp [Store.empty]

end DuckRun.Dashboard
