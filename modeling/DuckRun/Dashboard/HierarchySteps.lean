import DuckRun.Dashboard.Hierarchy
/-!
# Changes that keep the hierarchy invariant

One lemma per kind of change a handler saves. The hard one is `inv_relocate`:
a group gets a new place, and every row whose path starts with its old path
follows by prefix. By `under_child_iff` those rows are exactly the ones whose
parent moves along, so each row still spells out its parent's path.
-/

namespace DuckRun.Dashboard

open DuckRun.Lib GroupEndpoints

/-! ## Moving and renaming -/

/-- What becomes of a row when `g` turns into `g'` and the rows below follow. -/
def relocated (g g' r : Group) : Group :=
  if r.id = g.id then g'
  else if startsWith g.fullPath r then relocate g.fullPath g'.fullPath (g'.depth - g.depth) r
  else r

/-- The groups after that. -/
def Store.relocate (s : Store) (g g' : Group) : Store := { s with groups := s.groups.map (relocated g g') }

section Relocate
variable {s : Store} {g g' : Group}

theorem relocated_id (hid : g'.id = g.id) (r : Group) : (relocated g g' r).id = r.id := by
  unfold relocated
  split
  · simp_all
  · split <;> rfl

theorem relocated_self (g g' : Group) : relocated g g' g = g' := by simp [relocated]

/-- Only `g` changes its parent or its slug. -/
theorem relocated_other {r : Group} (hr : r.id ≠ g.id) :
    (relocated g g' r).parentGroupId = r.parentGroupId ∧ (relocated g g' r).slug = r.slug := by
  unfold relocated
  rw [if_neg hr]
  split <;> exact ⟨rfl, rfl⟩

theorem under_iff_startsWith (hi : Inv s) (hg : g ∈ s.groups) {r : Group} (hr : r ∈ s.groups) :
    Under '/' g.fullPath r.fullPath ↔ r = g ∨ startsWith g.fullPath r = true := by
  unfold Under
  rw [startsWith_iff]
  refine or_congr_left ⟨hi.paths r hr g hg, ?_⟩
  rintro rfl
  rfl

/-- A row outside `g`'s path stays as it is. -/
theorem relocated_outside (hi : Inv s) (hg : g ∈ s.groups) {r : Group} (hr : r ∈ s.groups)
    (hu : ¬ Under '/' g.fullPath r.fullPath) : relocated g g' r = r := by
  rw [under_iff_startsWith hi hg hr, not_or, Bool.not_eq_true] at hu
  unfold relocated
  rw [if_neg fun he => hu.1 (hi.id_inj hr hg he), hu.2]
  rfl

/-- A row under `g`'s path, `g` included, trades the old prefix for the new one. -/
theorem relocated_under (hi : Inv s) (hg : g ∈ s.groups) {r : Group} (hr : r ∈ s.groups)
    (hu : Under '/' g.fullPath r.fullPath) :
    (relocated g g' r).fullPath = g'.fullPath ++ r.fullPath.drop g.fullPath.length ∧
      (relocated g g' r).depth = r.depth + (g'.depth - g.depth) := by
  rcases (under_iff_startsWith hi hg hr).1 hu with rfl | hs
  · rw [relocated_self]
    exact ⟨by simp, by omega⟩
  · have hne : r.id ≠ g.id := by
      intro he
      rw [hi.id_inj hr hg he, startsWith_self] at hs
      cases hs
    unfold relocated
    rw [if_neg hne, if_pos hs]
    exact ⟨rfl, rfl⟩

theorem inv_relocate (hi : Inv s) (hg : g ∈ s.groups) (hid : g'.id = g.id) {newParent : Option Group}
    (hp : ∀ q ∈ newParent, q ∈ s.groups ∧ ¬ Under '/' g.fullPath q.fullPath)
    (hplaced : PlacedUnder g' newParent) (hdepth : g'.depth = newParent.elim 0 fun q => q.depth + 1)
    (hslug : g'.slug ≠ [] ∧ '/' ∉ g'.slug)
    (hsib : ∀ h ∈ s.groups, h.parentGroupId = g'.parentGroupId → h.slug = g'.slug → h = g)
    (hmax : ∀ d ∈ s.groups, Under '/' g.fullPath d.fullPath → d.depth + (g'.depth - g.depth) ≤ maxDepth) :
    Inv (s.relocate g g') := by
  have hcount : g'.depth = g'.fullPath.count '/' := by
    cases newParent with
    | none =>
      have h2 : g'.fullPath = g'.slug := hplaced.2
      rw [hdepth, h2, List.count_eq_zero_of_not_mem hslug.2]
      rfl
    | some q =>
      have h2 : g'.fullPath = q.fullPath ++ '/' :: g'.slug := hplaced.2
      rw [hdepth, h2, count_child hslug.2, Option.elim_some, (hi.depths q (hp q rfl).1).1]
      simp
  refine { hi with ids := ?_, placed := ?_, depths := ?_, slugs := ?_, siblings := ?_, members := ?_, projectGroups := ?_ }
  · exact nodup_map_map (relocated_id hid) hi.ids
  · intro r' hr'
    obtain ⟨r, hr, rfl⟩ := List.mem_map.1 hr'
    by_cases hrg : r = g
    · -- The group itself: its new parent is outside its path, so it is still there.
      subst hrg
      rw [relocated_self]
      refine ⟨newParent, fun q hq => ?_, hplaced⟩
      obtain ⟨hqm, hqu⟩ := hp q hq
      exact List.mem_map.2 ⟨q, hqm, relocated_outside hi hg hqm hqu⟩
    · have hne : r.id ≠ g.id := fun he => hrg (hi.id_inj hr hg he)
      obtain ⟨hpar, hsl⟩ : (relocated g g' r).parentGroupId = r.parentGroupId ∧ (relocated g g' r).slug = r.slug :=
        relocated_other hne
      obtain ⟨p, hpm, hpl⟩ := hi.placed r hr
      cases p with
      | none =>
        have hpath : r.fullPath = r.slug := hpl.2
        have hout : ¬ Under '/' g.fullPath r.fullPath := by
          rw [hpath, under_segment_iff (hi.slugs r hr).2, ← hpath]
          exact fun he => hrg (hi.paths r hr g hg he)
        rw [relocated_outside hi hg hr hout]
        exact ⟨none, by simp, hpl⟩
      | some q =>
        have hqm := hpm q rfl
        have hpath : r.fullPath = q.fullPath ++ '/' :: r.slug := hpl.2
        refine ⟨some (relocated g g' q), ?_, ?_, ?_⟩
        · rintro _ ⟨⟩
          exact List.mem_map_of_mem hqm
        · rw [hpar, hpl.1]
          exact congrArg some (relocated_id hid q).symm
        · have hchild := under_child_iff (hi.slugs r hr).2 g.fullPath q.fullPath
          rw [← hpath] at hchild
          show _ = (relocated g g' q).fullPath ++ '/' :: (relocated g g' r).slug
          by_cases hu : Under '/' g.fullPath q.fullPath
          · rw [(relocated_under hi hg hr (hchild.2 (.inr hu))).1, (relocated_under hi hg hqm hu).1, hsl, hpath]
            exact rebase_child hu _
          · have hout : ¬ Under '/' g.fullPath r.fullPath := by
              rw [hchild, not_or]
              exact ⟨fun he => hrg (hi.paths r hr g hg he), hu⟩
            rw [relocated_outside hi hg hr hout, relocated_outside hi hg hqm hu, hpath]
  · intro r' hr'
    obtain ⟨r, hr, rfl⟩ := List.mem_map.1 hr'
    by_cases hu : Under '/' g.fullPath r.fullPath
    · obtain ⟨h1, h2⟩ := @relocated_under _ _ g' hi hg _ hr hu
      have hc := count_rebase hu g'.fullPath
      have h3 := (hi.depths r hr).1
      have h4 := (hi.depths g hg).1
      have h5 := hmax r hr hu
      rw [h1, h2]
      exact ⟨by omega, h5⟩
    · rw [relocated_outside hi hg hr hu]
      exact hi.depths r hr
  · intro r' hr'
    obtain ⟨r, hr, rfl⟩ := List.mem_map.1 hr'
    by_cases hne : r.id = g.id
    · rw [hi.id_inj hr hg hne, relocated_self]
      exact hslug
    · rw [(relocated_other hne).2]
      exact hi.slugs r hr
  · intro r1' h1 r2' h2 hpar hsl
    obtain ⟨r1, hr1, rfl⟩ := List.mem_map.1 h1
    obtain ⟨r2, hr2, rfl⟩ := List.mem_map.1 h2
    by_cases hn1 : r1.id = g.id <;> by_cases hn2 : r2.id = g.id
    · rw [hi.id_inj hr1 hg hn1, hi.id_inj hr2 hg hn2]
    · rw [hi.id_inj hr1 hg hn1, relocated_self, (relocated_other hn2).1] at hpar
      rw [hi.id_inj hr1 hg hn1, relocated_self, (relocated_other hn2).2] at hsl
      exact absurd (congrArg Group.id (hsib r2 hr2 hpar.symm hsl.symm)) hn2
    · rw [hi.id_inj hr2 hg hn2, relocated_self, (relocated_other hn1).1] at hpar
      rw [hi.id_inj hr2 hg hn2, relocated_self, (relocated_other hn1).2] at hsl
      exact absurd (congrArg Group.id (hsib r1 hr1 hpar hsl)) hn1
    · rw [(relocated_other hn1).1, (relocated_other hn2).1] at hpar
      rw [(relocated_other hn1).2, (relocated_other hn2).2] at hsl
      rw [hi.siblings r1 hr1 r2 hr2 hpar hsl]
  · intro m hm
    obtain ⟨h, hh, hid'⟩ := hi.members m hm
    exact ⟨_, List.mem_map_of_mem hh, (relocated_id hid h).trans hid'⟩
  · intro p hpm gid hgid
    obtain ⟨h, hh, hid'⟩ := hi.projectGroups p hpm gid hgid
    exact ⟨_, List.mem_map_of_mem hh, (relocated_id hid h).trans hid'⟩

end Relocate

/-! ## The other changes of the group tables -/

/-- Columns outside the hierarchy may change freely. -/
theorem inv_map {s : Store} (hi : Inv s) {f : Group → Group}
    (hf : ∀ r ∈ s.groups, (f r).id = r.id ∧ (f r).parentGroupId = r.parentGroupId ∧ (f r).slug = r.slug ∧
      (f r).fullPath = r.fullPath ∧ (f r).depth = r.depth) :
    Inv { s with groups := s.groups.map f } := by
  refine { hi with ids := ?_, placed := ?_, depths := ?_, slugs := ?_, siblings := ?_, members := ?_, projectGroups := ?_ }
  · have hids : s.groups.map (Group.id ∘ f) = s.groups.map Group.id :=
      List.map_congr_left fun r hr => (hf r hr).1
    rw [List.map_map, hids]
    exact hi.ids
  · intro r' hr'
    obtain ⟨r, hr, rfl⟩ := List.mem_map.1 hr'
    obtain ⟨-, h2, h3, h4, -⟩ := hf r hr
    obtain ⟨p, hpm, hp1, hp2⟩ := hi.placed r hr
    refine ⟨p.map f, ?_, ?_, ?_⟩
    · intro q' hq'
      obtain ⟨q, hq, rfl⟩ := Option.mem_map.1 hq'
      exact List.mem_map_of_mem (hpm q hq)
    · rw [h2, hp1]
      cases p with
      | none => rfl
      | some q => exact congrArg some (hf q (hpm q rfl)).1.symm
    · rw [h4, hp2, h3]
      cases p with
      | none => rfl
      | some q => simp only [Option.map_some, Option.elim_some, (hf q (hpm q rfl)).2.2.2.1]
  · intro r' hr'
    obtain ⟨r, hr, rfl⟩ := List.mem_map.1 hr'
    rw [(hf r hr).2.2.2.1, (hf r hr).2.2.2.2]
    exact hi.depths r hr
  · intro r' hr'
    obtain ⟨r, hr, rfl⟩ := List.mem_map.1 hr'
    rw [(hf r hr).2.2.1]
    exact hi.slugs r hr
  · intro r1' h1 r2' h2 hpar hsl
    obtain ⟨r1, hr1, rfl⟩ := List.mem_map.1 h1
    obtain ⟨r2, hr2, rfl⟩ := List.mem_map.1 h2
    rw [(hf r1 hr1).2.1, (hf r2 hr2).2.1] at hpar
    rw [(hf r1 hr1).2.2.1, (hf r2 hr2).2.2.1] at hsl
    rw [hi.siblings r1 hr1 r2 hr2 hpar hsl]
  · intro m hm
    obtain ⟨h, hh, hid⟩ := hi.members m hm
    exact ⟨_, List.mem_map_of_mem hh, (hf h hh).1.trans hid⟩
  · intro p hpm gid hgid
    obtain ⟨h, hh, hid⟩ := hi.projectGroups p hpm gid hgid
    exact ⟨_, List.mem_map_of_mem hh, (hf h hh).1.trans hid⟩

theorem inv_addGroup {s : Store} (hi : Inv s) {g : Group} (hnew : ∀ h ∈ s.groups, h.id ≠ g.id)
    {p : Option Group} (hp : ∀ q ∈ p, q ∈ s.groups) (hplaced : PlacedUnder g p)
    (hdepth : g.depth = p.elim 0 fun q => q.depth + 1) (hmax : g.depth ≤ maxDepth)
    (hslug : g.slug ≠ [] ∧ '/' ∉ g.slug)
    (hsib : ∀ h ∈ s.groups, h.parentGroupId = g.parentGroupId → h.slug ≠ g.slug) :
    Inv (s.apply (.addGroup g)) := by
  have hcount : g.depth = g.fullPath.count '/' := by
    cases p with
    | none =>
      have h2 : g.fullPath = g.slug := hplaced.2
      rw [hdepth, h2, List.count_eq_zero_of_not_mem hslug.2]
      rfl
    | some q =>
      have h2 : g.fullPath = q.fullPath ++ '/' :: g.slug := hplaced.2
      rw [hdepth, h2, count_child hslug.2, Option.elim_some, (hi.depths q (hp q rfl)).1]
      simp
  have hmem : ∀ r, r ∈ s.groups ++ [g] ↔ r ∈ s.groups ∨ r = g := by simp
  refine { hi with ids := ?_, placed := ?_, depths := ?_, slugs := ?_, siblings := ?_, members := ?_, projectGroups := ?_ }
  · simp only [Store.apply, List.map_append, List.map_cons, List.map_nil]
    refine List.nodup_append.2 ⟨hi.ids, by simp, ?_⟩
    intro a ha b hb
    obtain ⟨r, hr, rfl⟩ := List.mem_map.1 ha
    rw [List.mem_singleton] at hb
    exact hb ▸ hnew r hr
  · intro r hr
    rcases (hmem r).1 hr with hr | rfl
    · obtain ⟨q, hqm, hq⟩ := hi.placed r hr
      exact ⟨q, fun x hx => List.mem_append_left _ (hqm x hx), hq⟩
    · exact ⟨p, fun x hx => List.mem_append_left _ (hp x hx), hplaced⟩
  · intro r hr
    rcases (hmem r).1 hr with hr | rfl
    · exact hi.depths r hr
    · exact ⟨hcount, hmax⟩
  · intro r hr
    rcases (hmem r).1 hr with hr | rfl
    · exact hi.slugs r hr
    · exact hslug
  · intro r1 h1 r2 h2 hpar hsl
    rcases (hmem r1).1 h1 with hr1 | hr1 <;> rcases (hmem r2).1 h2 with hr2 | hr2
    · exact hi.siblings r1 hr1 r2 hr2 hpar hsl
    · subst hr2
      exact absurd hsl (hsib r1 hr1 hpar)
    · subst hr1
      exact absurd hsl.symm (hsib r2 hr2 hpar.symm)
    · exact hr1.trans hr2.symm
  · intro m hm
    obtain ⟨h, hh, hid⟩ := hi.members m hm
    exact ⟨h, List.mem_append_left _ hh, hid⟩
  · intro q hq gid hgid
    obtain ⟨h, hh, hid⟩ := hi.projectGroups q hq gid hgid
    exact ⟨h, List.mem_append_left _ hh, hid⟩

theorem inv_addGroupMember {s : Store} (hi : Inv s) {m : GroupMember} (hm : ∃ g ∈ s.groups, g.id = m.groupId) :
    Inv (s.apply (.addGroupMember m)) := by
  refine { hi with members := ?_ }
  intro x hx
  rcases List.mem_append.1 hx with hx | hx
  · exact hi.members x hx
  · rw [List.mem_singleton] at hx
    exact hx ▸ hm

/-- Removing a group nothing hangs under: no subgroup, no project, no member row. -/
theorem inv_removeGroup {s : Store} (hi : Inv s) {id : Guid} (hsub : ∀ g ∈ s.groups, g.parentGroupId ≠ some id)
    (hproj : ∀ p ∈ s.projects, p.groupId ≠ some id) (hmem : ∀ m ∈ s.groupMembers, m.groupId ≠ id) :
    Inv (s.apply (.removeGroup id)) := by
  have hkeep : ∀ g ∈ s.groups, g.id ≠ id → g ∈ s.groups.filter fun g => g.id ≠ id :=
    fun g hg hne => List.mem_filter.2 ⟨hg, by simpa using hne⟩
  refine { hi with ids := ?_, placed := ?_, depths := ?_, slugs := ?_, siblings := ?_, members := ?_, projectGroups := ?_ }
  · exact nodup_map_filter _ hi.ids
  · intro g hg
    have hg' := (List.mem_filter.1 hg).1
    obtain ⟨p, hpm, hp⟩ := hi.placed g hg'
    refine ⟨p, fun q hq => hkeep q (hpm q hq) ?_, hp⟩
    intro hqid
    obtain rfl : p = some q := hq
    exact hsub g hg' (hp.1.trans (congrArg some hqid))
  · exact fun g hg => hi.depths g (List.mem_filter.1 hg).1
  · exact fun g hg => hi.slugs g (List.mem_filter.1 hg).1
  · exact fun g hg h hh => hi.siblings g (List.mem_filter.1 hg).1 h (List.mem_filter.1 hh).1
  · intro m hm
    obtain ⟨g, hg, hid⟩ := hi.members m hm
    exact ⟨g, hkeep g hg (hid ▸ hmem m hm), hid⟩
  · intro p hp gid hgid
    obtain ⟨g, hg, hid⟩ := hi.projectGroups p hp gid hgid
    refine ⟨g, hkeep g hg ?_, hid⟩
    rintro rfl
    exact hproj p hp (hid ▸ hgid)

theorem inv_filterMembers {s : Store} (hi : Inv s) (p : GroupMember → Bool) :
    Inv { s with groupMembers := s.groupMembers.filter p } :=
  { hi with members := fun m hm => hi.members m (List.mem_filter.1 hm).1 }

/-! ## Projects -/

theorem inv_addProject {s : Store} (hi : Inv s) {p : Project} (hnew : ∀ q ∈ s.projects, q.id ≠ p.id)
    (hgroup : ∀ gid, p.groupId = some gid → ∃ g ∈ s.groups, g.id = gid)
    (hsib : ∀ q ∈ s.projects, q.groupId = p.groupId → q.slug ≠ p.slug) : Inv (s.apply (.addProject p)) := by
  have hmem : ∀ r, r ∈ s.projects ++ [p] ↔ r ∈ s.projects ∨ r = p := by simp
  refine { hi with projectIds := ?_, projectGroups := ?_, projectSlugs := ?_ }
  · simp only [Store.apply, List.map_append, List.map_cons, List.map_nil]
    refine List.nodup_append.2 ⟨hi.projectIds, by simp, ?_⟩
    intro a ha b hb
    obtain ⟨r, hr, rfl⟩ := List.mem_map.1 ha
    rw [List.mem_singleton] at hb
    exact hb ▸ hnew r hr
  · intro q hq
    rcases (hmem q).1 hq with hq | rfl
    · exact hi.projectGroups q hq
    · exact hgroup
  · intro q1 h1 q2 h2 hg hs
    rcases (hmem q1).1 h1 with hq1 | hq1 <;> rcases (hmem q2).1 h2 with hq2 | hq2
    · exact hi.projectSlugs q1 hq1 q2 hq2 hg hs
    · subst hq2
      exact absurd hs (hsib q1 hq1 hg)
    · subst hq1
      exact absurd hs.symm (hsib q2 hq2 hg.symm)
    · exact hq1.trans hq2.symm

/-- A project row turns from `p` into `p'`. -/
theorem inv_updateProject {s : Store} (hi : Inv s) {p p' : Project} (hp : p ∈ s.projects) (hid : p'.id = p.id)
    (howner : p'.ownerId = p.ownerId) (hat : p'.createdAt = p.createdAt)
    (hgroup : ∀ gid, p'.groupId = some gid → ∃ g ∈ s.groups, g.id = gid)
    (hsib : ∀ q ∈ s.projects, q.groupId = p'.groupId → q.slug = p'.slug → q = p) :
    Inv (s.apply (.updateProject p p')) := by
  have hrow : ∀ r ∈ s.projects, (if r.id = p.id then Project.merge p p' r else r) = if r.id = p.id then p' else r := by
    intro r hr
    split
    · rename_i he
      rw [List.inj_on_of_nodup_map hi.projectIds hr hp he]
      exact Project.merge_self hid howner hat
    · rfl
  have hmem : ∀ r', r' ∈ (s.apply (.updateProject p p')).projects ↔
      ∃ r ∈ s.projects, r' = if r.id = p.id then p' else r := by
    intro r'
    simp only [Store.apply, mem_updateKey]
    exact exists_congr fun r => and_congr_right fun hr => by rw [hrow r hr]
  refine { hi with projectIds := ?_, projectGroups := ?_, projectSlugs := ?_ }
  · simp only [Store.apply]
    rw [map_updateKey (Project.merge_id p p')]
    exact hi.projectIds
  · intro r' hr'
    obtain ⟨r, hr, rfl⟩ := (hmem r').1 hr'
    split
    · exact hgroup
    · exact hi.projectGroups r hr
  · intro r1' h1 r2' h2 hg hs
    obtain ⟨r1, hr1, rfl⟩ := (hmem r1').1 h1
    obtain ⟨r2, hr2, rfl⟩ := (hmem r2').1 h2
    by_cases hn1 : r1.id = p.id <;> by_cases hn2 : r2.id = p.id <;>
      simp only [hn1, hn2, ↓reduceIte] at hg hs ⊢
    · exact absurd (congrArg Project.id (hsib r2 hr2 hg.symm hs.symm)) hn2
    · exact absurd (congrArg Project.id (hsib r1 hr1 hg hs)) hn1
    · exact hi.projectSlugs r1 hr1 r2 hr2 hg hs

end DuckRun.Dashboard
