import DuckRun.Dashboard.Moves
/-!
# What a move or a rename does

An accepted move, and an accepted rename to another slug, is one relocation of
the group's subtree, and the opposite request relocates it back. The way back
is a move too, so its descent check may be in the way of it.
-/

namespace DuckRun.Dashboard

open DuckRun.Lib DuckRun.Lib.Queries ChangeTracker GroupEndpoints

/-! ## The effect on the rows -/

/-- What becomes of row `r` when `g` turns into `g'`. -/
structure RowMoved (s : Store) (g g' r r' : Group) : Prop where
  outside : ¬ Below s.pointers g.id r.id → r' = r
  below : Below s.pointers g.id r.id → r.id ≠ g.id → ∃ rest, r.fullPath = g.fullPath ++ '/' :: rest ∧
    r' = { r with fullPath := g'.fullPath ++ '/' :: rest, depth := r.depth + (g'.depth - g.depth) }
  self : r.id = g.id → r' = g'

/-- `s'` is `s` with the subtree of `g` moved along with it, and nothing else changed. -/
structure SubtreeMoved (s s' : Store) (g g' : Group) : Prop where
  groups : List.Forall₂ (RowMoved s g g') s.groups s'.groups
  groupMembers : s'.groupMembers = s.groupMembers
  projects : s'.projects = s.projects
  projectMembers : s'.projectMembers = s.projectMembers

section Effect
variable {s : Store} {g g' : Group}

theorem rowMoved_relocated (hi : Inv s) (hg : g ∈ s.groups) {r : Group} (hr : r ∈ s.groups) :
    RowMoved s g g' r (relocated g g' r) where
  outside hb := relocated_not_below hi hg hr hb
  below hb hne := relocated_below hi hg hr hb hne
  self hid := by rw [hi.id_inj hr hg hid, relocated_self]

theorem subtreeMoved_relocate (hi : Inv s) (hg : g ∈ s.groups) (g' : Group) :
    SubtreeMoved s (s.relocate g g') g g' where
  groups := List.forall₂_map_right_iff.2 (List.forall₂_same.2 fun _ hr => rowMoved_relocated hi hg hr)
  groupMembers := rfl
  projects := rfl
  projectMembers := rfl

/-- What a saved rename was, and the store after it. -/
theorem rename_of_succeeds {chars : CharTable} (hs : Sound s) (hg : g ∈ s.groups) {body : UpdateGroupRequest}
    {slugIn : Text} (hslug : body.slug = some slugIn) (hnew : normalizeSlug chars slugIn ≠ g.slug) {s' : Store}
    (h : Succeeds chars s (.updateGroup g.id body) s') :
    ∃ parent group, updateFields chars body g = .ok group ∧ g.parentGroupId = parent.map Group.id ∧
      (∀ p ∈ parent, p ∈ s.groups) ∧
      s' = s.relocate g (placeAt g.parentGroupId parent (normalizeSlug chars slugIn) group) := by
  obtain ⟨cs, r, hsave, hs'⟩ := h
  obtain ⟨rfl, -⟩ := Store.saveChanges_some hs'
  obtain ⟨stored, hmem, hid, group, hfields, hcase⟩ := updateAsync_saves hs.inv hsave
  obtain rfl := hs.inv.id_inj hmem hg hid
  rcases hcase with ⟨hsame, -⟩ | ⟨parent, slugIn', hslug', -, -, hpid, hpm, -, happly⟩
  · exact absurd (hsame slugIn hslug) hnew
  · obtain rfl : slugIn = slugIn' := Option.some.inj (hslug.symm.trans hslug')
    exact ⟨parent, group, hfields, hpid, hpm, happly⟩

end Effect

def renameToSite : UpdateGroupRequest := ⟨some "Site".toList, some "Site".toList, none⟩

theorem movedUnderOps :
    (saved ascii (reached ascii noUsers teamsCreated) (.moveGroup webGroup.id ⟨some opsGroup.id⟩)).any fun s' =>
      s'.groups.map Group.fullPath = ["ops".toList, "ops/web".toList, "ops/web/api".toList] := by decide +kernel

theorem renamedToSite :
    (saved ascii (reached ascii noUsers teamsCreated) (.updateGroup webGroup.id renameToSite)).any fun s' =>
      s'.groups.map Group.fullPath = ["ops".toList, "site".toList, "site/api".toList] := by decide +kernel

theorem sluggedSite :
    (saved ascii (reached ascii noUsers teamsCreated) (.updateGroup webGroup.id ⟨none, some "Site".toList, none⟩)).any
      fun s' => s'.groups.map Group.fullPath = ["ops".toList, "site".toList, "site/api".toList] := by decide +kernel

/-- The path a slug has under a target. -/
def Store.pathUnder (s : Store) (target : Option Guid) (slug : Text) : Text :=
  (target.bind s.findGroup).elim slug fun p => p.fullPath ++ '/' :: slug

section Back
variable {s : Store} {g g' : Group}

theorem pathUnder_rows (hi : Inv s) {parent : Option Group} (hpm : ∀ p ∈ parent, p ∈ s.groups) (slug : Text) :
    s.pathUnder (parent.map Group.id) slug = (placeAt (parent.map Group.id) parent slug g).fullPath := by
  cases parent with
  | none => rfl
  | some p =>
    unfold Store.pathUnder
    rw [Option.map_some, Option.bind_some, (findGroup_iff hi.ids).2 ⟨hpm p rfl, rfl⟩]
    rfl

/-- The group's own row says where it is. -/
theorem placeAt_own (hi : Inv s) (hg : g ∈ s.groups) {parent : Option Group} (hpid : g.parentGroupId = parent.map Group.id)
    (hpm : ∀ p ∈ parent, p ∈ s.groups) : placeAt g.parentGroupId parent g.slug g = g := by
  have hplace : g.fullPath = parent.elim g.slug (fun p => p.fullPath ++ '/' :: g.slug) ∧
      g.depth = parent.elim 0 (fun p => p.depth + 1) := by
    cases parent with
    | none => exact ((inv_wellFormed hi).topLevel g hg hpid).symm
    | some p => exact ⟨hi.placed_under hg (hpm p rfl) hpid, hi.depth_child hg (hpm p rfl) hpid⟩
  unfold placeAt
  rw [← hplace.1, ← hplace.2]

theorem exists_parent (hi : Inv s) (hg : g ∈ s.groups) :
    ∃ parent : Option Group, g.parentGroupId = parent.map Group.id ∧
      ∀ p ∈ parent, p ∈ s.groups ∧ ¬ Below s.pointers g.id p.id := by
  cases hp : g.parentGroupId with
  | none => exact ⟨none, rfl, by simp⟩
  | some k =>
    obtain ⟨p, hpm, rfl⟩ := hi.parents hg hp
    refine ⟨some p, rfl, ?_⟩
    rintro _ ⟨⟩
    exact ⟨hpm, (inv_wellFormed hi).acyclic g hg p.id hp⟩

/-- Wherever the group went, no sibling has taken its slug in the old place. -/
theorem siblings_back (hi : Inv s) (hg : g ∈ s.groups) (hid : g'.id = g.id) :
    ∀ h ∈ (s.relocate g g').groups, h.parentGroupId = g.parentGroupId → h.slug = g.slug → h.id = g.id := by
  intro h hh hpar hsl
  obtain ⟨r, hr, rfl⟩ := List.mem_map.1 hh
  rw [relocated_id hid]
  by_cases hne : r.id = g.id
  · exact hne
  · obtain ⟨h1, h2⟩ := @relocated_other g g' r hne
    rw [h1] at hpar
    rw [h2] at hsl
    exact congrArg Group.id (hi.siblings r hr g hg hpar hsl)

/-- A row outside the subtree is still there. -/
theorem mem_relocate_outside (hi : Inv s) (hg : g ∈ s.groups) {p : Group} (hp : p ∈ s.groups)
    (hb : ¬ Below s.pointers g.id p.id) : p ∈ (s.relocate g g').groups :=
  List.mem_map.2 ⟨p, hp, relocated_not_below hi hg hp hb⟩

/-- The old place is a legal target once the group has gone elsewhere. -/
theorem legalMove_back (hi : Inv s) (hg : g ∈ s.groups) (hid : g'.id = g.id) (hslug : g'.slug = g.slug)
    {parent : Option Group} (hpid : g.parentGroupId = parent.map Group.id)
    (hpm : ∀ p ∈ parent, p ∈ s.groups ∧ ¬ Below s.pointers g.id p.id) :
    LegalMove (s.relocate g g') g' parent where
  target p hp := by
    obtain ⟨hmem, hb⟩ := hpm p hp
    refine ⟨mem_relocate_outside hi hg hmem hb, ?_⟩
    rw [hid, below_relocate hi hg hid]
    exact hb
  depths d hd hb := by
    obtain ⟨r, hr, rfl⟩ := List.mem_map.1 hd
    rw [hid, relocated_id hid, below_relocate hi hg hid] at hb
    obtain ⟨-, hdepth⟩ := @relocated_under _ _ g' hi hg _ hr ((under_iff_below hi hg hr).2 hb)
    have hown : parent.elim 0 (fun p => p.depth + 1) = g.depth :=
      congrArg Group.depth (placeAt_own hi hg hpid fun p hp => (hpm p hp).1)
    have hmax := (hi.depths r hr).2
    rw [hdepth, hown]
    omega
  siblings h hh hpar hsl := by
    rw [hid]
    exact siblings_back hi hg hid h hh (hpar.trans hpid.symm) (hsl.trans hslug)

theorem mem_relocate (hg : g ∈ s.groups) : g' ∈ (s.relocate g g').groups :=
  List.mem_map.2 ⟨g, hg, relocated_self g g'⟩

/-- A request that relocates the moved row to where the group was restores the store. -/
theorem succeeds_back {chars : CharTable} (hi : Inv s) (hg : g ∈ s.groups)
    (hi' : Inv (s.relocate g g')) (hid : g'.id = g.id) {r : Request} {back : Group} (hrow : back = g)
    (h : Succeeds chars (s.relocate g g') r ((s.relocate g g').relocate g' back)) :
    Succeeds chars (s.relocate g g') r s := by
  rw [hrow, relocate_back hi hg hid hi'] at h
  exact h

/-- The move back to the old parent succeeds, and restores the rows, exactly when the
culture agrees on the old parent's path and the one the group has got. -/
theorem succeeds_move_back {chars : CharTable} (hculture : chars.RecognisesPaths) (hs : Sound s) (hg : g ∈ s.groups)
    {target : Option Guid} {s' : Store} (h : Succeeds chars s (.moveGroup g.id ⟨target⟩) s') :
    Succeeds chars s' (.moveGroup g.id ⟨g.parentGroupId⟩) s ↔
      ∀ p ∈ s.groups, g.parentGroupId = some p.id → chars.Agrees (s.pathUnder target g.slug) p.fullPath := by
  have hs' := hs.succeeds hculture h
  obtain ⟨parent, rfl, hl, -, rfl⟩ := move_of_succeeds hculture hs hg h
  obtain ⟨own, hpid, hpm⟩ := exists_parent hs.inv hg
  have hlegal := @legalMove_back _ _ (placeAt (parent.map Group.id) parent g.slug g) hs.inv hg rfl rfl _ hpid hpm
  rw [pathUnder_rows (g := g) hs.inv (fun p hp => (hl.target p hp).1), hpid]
  constructor
  · intro hback p hp hown
    obtain ⟨parent', hparent, hl', hagree, -⟩ := move_of_succeeds hculture hs' (mem_relocate hg) hback
    obtain rfl : own = some p := hs.inv.parent_unique (fun q hq => (hpm q hq).1) (by rintro _ ⟨⟩; exact hp) hown
    exact hagree p (legalMove_target hs'.inv hl' (hlegal.target p rfl).1 hparent.symm ▸ rfl)
  · intro hagree
    have hback := succeeds_move hculture hs' (mem_relocate hg) hlegal fun p hp =>
      hagree p (hpm p hp).1 (congrArg (Option.map Group.id) hp)
    -- The four columns assigned on the way are assigned again on the way back.
    have hrow : placeAt (own.map Group.id) own g.slug (placeAt (parent.map Group.id) parent g.slug g) = g := by
      rw [← hpid]
      exact placeAt_own hs.inv hg hpid fun p hp => (hpm p hp).1
    exact succeeds_back hs.inv hg hs'.inv rfl hrow hback

/-! ## Renaming -/

theorem updateAsync_unchanged {chars : CharTable} (hi : Inv s) (hg : g ∈ s.groups) {slugIn : Text}
    (hslug : normalizeSlug chars slugIn = g.slug) :
    ∃ r, (updateAsync chars g.id ⟨none, some slugIn, none⟩).eval s = .save [] r := by
  have hlen : ¬ (normalizeSlug chars slugIn).length = 0 := by
    rw [hslug]
    exact fun h => (hi.slugs g hg).1 (List.length_eq_zero_iff.1 h)
  have hfields : updateFields chars ⟨none, some slugIn, none⟩ g = .ok g := rfl
  have hdetect : detectChanges [⟨g, g⟩] = [] := by simp [detectChanges]
  simp only [updateAsync, eval_query_bind, (findGroup_iff hi.ids).2 ⟨hg, rfl⟩, hfields, if_neg hlen, if_pos hslug, hdetect]
  exact ⟨_, rfl⟩

/-- A slug no sibling has is accepted. -/
theorem updateAsync_accepts {chars : CharTable} (hi : Inv s) (hg : g ∈ s.groups) {slugIn : Text}
    (hne : normalizeSlug chars slugIn ≠ []) (hnew : normalizeSlug chars slugIn ≠ g.slug)
    (hfree : ∀ h ∈ s.groups, h.parentGroupId = g.parentGroupId → h.slug = normalizeSlug chars slugIn → h.id = g.id) :
    ∃ cs r, (updateAsync chars g.id ⟨none, some slugIn, none⟩).eval s = .save cs r := by
  have hlen : ¬ (normalizeSlug chars slugIn).length = 0 := fun h => hne (List.length_eq_zero_iff.1 h)
  have hfields : updateFields chars ⟨none, some slugIn, none⟩ g = .ok g := rfl
  have hcollision := no_collision hfree
  have hself : g.parentGroupId ≠ some g.id := by
    intro he
    have := hi.depth_child hg hg he
    omega
  obtain ⟨t, hrw⟩ := rewritePathsAsync_total hi.ids (holds_single hg rfl rfl rfl) rfl hg rfl hself
    (fun k hk => hi.parents hg hk) (normalizeSlug chars slugIn)
  simp only [updateAsync, eval_query_bind, (findGroup_iff hi.ids).2 ⟨hg, rfl⟩, hfields, if_neg hlen, if_neg hnew,
    hcollision, Bool.false_eq_true, if_false]
  rw [eval_bind, hrw]
  exact ⟨_, _, rfl⟩

theorem succeeds_rename {chars : CharTable} (hs : Sound s) (hg : g ∈ s.groups) {slugIn : Text}
    (hne : normalizeSlug chars slugIn ≠ []) (hnew : normalizeSlug chars slugIn ≠ g.slug)
    (hfree : ∀ h ∈ s.groups, h.parentGroupId = g.parentGroupId → h.slug = normalizeSlug chars slugIn → h.id = g.id)
    {parent : Option Group} (hpid : g.parentGroupId = parent.map Group.id) (hpm : ∀ p ∈ parent, p ∈ s.groups) :
    Succeeds chars s (.updateGroup g.id ⟨none, some slugIn, none⟩)
      (s.relocate g (placeAt g.parentGroupId parent (normalizeSlug chars slugIn) g)) := by
  obtain ⟨cs, r, hsave⟩ := updateAsync_accepts hs.inv hg hne hnew hfree
  obtain ⟨stored, hmem, hid, group, hfields, hcase⟩ := updateAsync_saves hs.inv hsave
  obtain rfl := hs.inv.id_inj hmem hg hid
  obtain rfl : group = stored := by
    cases hfields
    rfl
  rcases hcase with ⟨hsame, -⟩ | ⟨parent', slugIn', hslug, -, -, hpid', hpm', -, happly⟩
  · exact absurd (hsame slugIn rfl) hnew
  · cases hslug
    obtain rfl : parent' = parent := hs.inv.parent_unique hpm' hpm (hpid'.symm.trans hpid)
    exact ⟨cs, r, hsave, saveChanges_relocate hs.indexes (inv_updateGroup hs.inv hsave) happly⟩

theorem succeeds_unchanged {chars : CharTable} (hs : Sound s) (hg : g ∈ s.groups) {slugIn : Text}
    (hslug : normalizeSlug chars slugIn = g.slug) :
    Succeeds chars s (.updateGroup g.id ⟨none, some slugIn, none⟩) s := by
  obtain ⟨r, hr⟩ := updateAsync_unchanged hs.inv hg hslug
  refine ⟨[], r, hr, ?_⟩
  simp [Store.saveChanges, hs.indexes]

theorem succeeds_rename_back {chars : CharTable} (hculture : chars.RecognisesPaths) (hs : Sound s) (hg : g ∈ s.groups)
    (hnormal : normalizeSlug chars g.slug = g.slug) {slugIn : Text} {s' : Store}
    (h : Succeeds chars s (.updateGroup g.id ⟨none, some slugIn, none⟩) s') :
    Succeeds chars s' (.updateGroup g.id ⟨none, some g.slug, none⟩) s := by
  by_cases hnew : normalizeSlug chars slugIn = g.slug
  · have hsame : s' = s := by
      obtain ⟨r, hr⟩ := updateAsync_unchanged hs.inv hg hnew
      obtain ⟨cs, r', hsave, hs'⟩ := h
      cases hr.symm.trans hsave
      exact (Store.saveChanges_some hs').1
    rw [hsame]
    exact succeeds_unchanged hs hg hnormal
  · have hs' := hs.succeeds hculture h
    obtain ⟨parent, group, hfields, hpid, hpm, rfl⟩ := rename_of_succeeds hs hg rfl hnew h
    obtain rfl : group = g := by
      cases hfields
      rfl
    obtain ⟨own, hown, hout⟩ := exists_parent hs.inv hg
    obtain rfl : parent = own := hs.inv.parent_unique hpm (fun p hp => (hout p hp).1) (hpid.symm.trans hown)
    have hne : normalizeSlug chars group.slug ≠ [] := by
      rw [hnormal]
      exact (hs.inv.slugs group hg).1
    have hother : normalizeSlug chars group.slug ≠ normalizeSlug chars slugIn := by
      rw [hnormal]
      exact fun he => hnew he.symm
    -- The old slug is free among the siblings, since the group was the one that had it.
    have hfree := @siblings_back _ _ (placeAt group.parentGroupId parent (normalizeSlug chars slugIn) group)
      hs.inv hg rfl
    rw [← hnormal] at hfree
    have hback := succeeds_rename hs' (mem_relocate hg) hne hother hfree hpid
      fun p hp => mem_relocate_outside hs.inv hg (hout p hp).1 (hout p hp).2
    have hrow : placeAt group.parentGroupId parent (normalizeSlug chars group.slug)
        (placeAt group.parentGroupId parent (normalizeSlug chars slugIn) group) = group := by
      rw [hnormal]
      exact placeAt_own hs.inv hg hpid hpm
    exact succeeds_back hs.inv hg hs'.inv rfl hrow hback

end Back

/-- Two top-level groups whose slugs the culture takes for one; `x`, `y` and `x` below the latter. -/
def chainCreated : List AnyEvent :=
  syllableCreated.take 2 ++
    [.hierarchy ⟨.createGroup ⟨9, 3, 103, 0⟩ ⟨some "x".toList, none, none, some 2⟩, true⟩,
      .hierarchy ⟨.createGroup ⟨9, 4, 104, 0⟩ ⟨some "y".toList, none, none, some 3⟩, true⟩,
      .hierarchy ⟨.createGroup ⟨9, 5, 105, 0⟩ ⟨some "x".toList, none, none, some 4⟩, true⟩]

def lastOfChain : Group := ⟨5, "x".toList, "x".toList, none, some 4, "\u1100\u1161/x/y/x".toList, 3, 9, 0⟩

theorem lastOfChain_mem : lastOfChain ∈ (reached hangul noUsers chainCreated).groups := by decide +kernel

theorem lastOfChain_leaves :
    (saved hangul (reached hangul noUsers chainCreated) (.moveGroup lastOfChain.id ⟨some syllableGroup.id⟩)).any
      fun s' => (saved hangul s' (.moveGroup lastOfChain.id ⟨lastOfChain.parentGroupId⟩)).isNone := by decide +kernel

end DuckRun.Dashboard
