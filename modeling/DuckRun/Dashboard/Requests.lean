import DuckRun.Dashboard.Saves
/-!
# Requests one after the other

The dashboard as a server that finishes each group or project request before
it starts the next one. From an empty database every store it reaches is a
well-formed hierarchy.
-/

namespace DuckRun.Dashboard

open DuckRun.Lib DuckRun.Lib.Queries

inductive Request where
  | createGroup (env : GroupEndpoints.Ambient) (body : GroupEndpoints.CreateGroupRequest)
  | updateGroup (id : Guid) (body : GroupEndpoints.UpdateGroupRequest)
  | moveGroup (id : Guid) (body : GroupEndpoints.MoveGroupRequest)
  | deleteGroup (id : Guid)
  | createProject (env : GroupEndpoints.Ambient) (body : ProjectEndpoints.CreateProjectRequest)
  | updateProject (id : Guid) (body : ProjectEndpoints.UpdateProjectRequest)
  | moveProject (id : Guid) (body : ProjectEndpoints.MoveProjectRequest)

section Sequential
variable (chars : CharTable)

def handle : Request → Handler
  | .createGroup env body => GroupEndpoints.createAsync chars env body
  | .updateGroup id body => GroupEndpoints.updateAsync chars id body
  | .moveGroup id body => GroupEndpoints.moveAsync chars id body
  | .deleteGroup id => GroupEndpoints.deleteAsync id
  | .createProject env body => ProjectEndpoints.createProjectAsync chars env body
  | .updateProject id body => ProjectEndpoints.updateProjectAsync chars id body
  | .moveProject id body => ProjectEndpoints.moveProjectAsync id body

/-- A request and whether the database is willing to save it. -/
structure Event where
  request : Request
  accepted : Bool

/-- One request from start to end; a refused save leaves the rows alone. -/
def serve (s : Store) (e : Event) : Store :=
  match (handle chars e.request).eval s with
  | .answer _ => s
  | .save cs _ => (s.saveChanges e.accepted cs).getD s

def serveAll (s : Store) (es : List Event) : Store := es.foldl (serve chars) s

end Sequential

/-! ## One request keeps the invariant -/

section Steps
variable {chars : CharTable} {s : Store} {cs : List Change} {r : Response}

theorem removeMembers (s : Store) (ms : List GroupMember) :
    s.applyAll (ms.map fun m => Change.removeGroupMember m.id) =
      { s with groupMembers := s.groupMembers.filter fun x => x.id ∉ ms.map GroupMember.id } := by
  induction ms generalizing s with
  | nil => simp
  | cons m ms ih =>
    rw [List.map_cons, Store.applyAll_cons, ih]
    simp only [Store.apply, List.filter_filter, Store.mk.injEq, true_and, and_true]
    refine List.filter_congr fun x _ => ?_
    by_cases hx : x.id = m.id <;> simp [hx]

theorem inv_createGroup (hi : Inv s) {env : GroupEndpoints.Ambient} {body : GroupEndpoints.CreateGroupRequest}
    (h : (GroupEndpoints.createAsync chars env body).eval s = .save cs r) (hok : (s.applyAll cs).indexesOk = true) :
    Inv (s.applyAll cs) := by
  obtain ⟨slug, parent, m, rfl, hm, hne, hslash, hpid, hpm, hsib⟩ := GroupEndpoints.createAsync_saves h
  have hids : (s.groups ++ [GroupEndpoints.newGroup chars env body slug parent]).map Group.id |>.Nodup :=
    Store.groups_nodup hok
  rw [List.map_append, List.nodup_append] at hids
  have hnew : ∀ g ∈ s.groups, g.id ≠ env.newId := fun g hg =>
    hids.2.2 _ (List.mem_map_of_mem hg) _ (List.mem_singleton.2 rfl)
  have hg : Inv (s.apply (.addGroup (GroupEndpoints.newGroup chars env body slug parent))) := by
    refine inv_addGroup hi hnew (fun q hq => (hpm q hq).1) ⟨hpid, rfl⟩ rfl ?_ ⟨hne, hslash⟩ hsib
    cases parent with
    | none => exact (by decide : (0 : Int) ≤ GroupEndpoints.maxDepth)
    | some q => exact (hpm q rfl).2
  refine inv_addGroupMember hg ⟨_, List.mem_append_right _ (List.mem_singleton.2 rfl), hm.symm⟩

theorem inv_updateGroup (hi : Inv s) {id : Guid} {body : GroupEndpoints.UpdateGroupRequest}
    (h : (GroupEndpoints.updateAsync chars id body).eval s = .save cs r) : Inv (s.applyAll cs) := by
  obtain ⟨g, hg, hid, group, hfields, hcase⟩ := GroupEndpoints.updateAsync_saves hi h
  have hgroup := GroupEndpoints.updateFields_ok hfields
  rcases hcase with ⟨-, hsave⟩ | ⟨parent, slugIn, -, hne, -, hpid, hpm, hsib, hsave⟩
  · rw [hsave]
    refine inv_map hi fun x hx => ?_
    split
    · rename_i hxid
      rw [hi.id_inj hx hg (hxid.trans hid.symm), hgroup]
      exact ⟨rfl, rfl, rfl, rfl, rfl⟩
    · exact ⟨rfl, rfl, rfl, rfl, rfl⟩
  · -- The parent stays, so the depths do, and the parent's path is too short to be below.
    rw [hsave]
    have hdepth : parent.elim 0 (fun q => q.depth + 1) = g.depth := by
      cases parent with
      | none => exact ((inv_wellFormed hi).topLevel g hg hpid).1.symm
      | some q => exact (hi.depth_child hg (hpm q rfl) hpid).symm
    have hout : ∀ q ∈ parent, q ∈ s.groups ∧ ¬ Under '/' g.fullPath q.fullPath := by
      rintro q rfl
      refine ⟨hpm q rfl, fun hu => ?_⟩
      have hlen := congrArg List.length (hi.placed_under hg (hpm q rfl) hpid)
      rw [List.length_append, List.length_cons] at hlen
      rcases hu with he | hpre
      · have := congrArg List.length he
        omega
      · have := hpre.length_le
        rw [List.length_append] at this
        omega
    refine inv_relocate hi hg (by rw [hgroup]; rfl) hout ⟨hpid, rfl⟩ rfl
      ⟨hne, normalizeSlug_no_slash chars slugIn⟩ ?_ ?_
    · intro x hx hxp hxs
      exact hi.id_inj hx hg ((hsib x hx hxp hxs).trans hid.symm)
    · intro x hx _
      have := (hi.depths x hx).2
      show x.depth + (parent.elim 0 (fun q => q.depth + 1) - g.depth) ≤ _
      omega

theorem inv_deleteGroup (hi : Inv s) {id : Guid}
    (h : (GroupEndpoints.deleteAsync id).eval s = .save cs r) : Inv (s.applyAll cs) := by
  obtain ⟨hsub, hproj, rfl⟩ := GroupEndpoints.deleteAsync_saves h
  rw [Store.applyAll_append, removeMembers]
  refine inv_removeGroup (inv_filterMembers hi _) hsub hproj ?_
  intro m hm
  obtain ⟨hm, hrow⟩ := List.mem_filter.1 hm
  intro hgid
  have hkey : m.id ∈ (s.groupMembers.filter fun m => m.groupId = id).map GroupMember.id :=
    List.mem_map_of_mem (List.mem_filter.2 ⟨hm, by simpa using hgid⟩)
  simp [hkey] at hrow

theorem inv_moveGroup (hculture : chars.RecognisesPaths) (hi : Inv s) {id : Guid}
    {body : GroupEndpoints.MoveGroupRequest} (h : (GroupEndpoints.moveAsync chars id body).eval s = .save cs r) :
    Inv (s.applyAll cs) := by
  obtain ⟨g, hg, hid, parent, hpid, hpm, hsib, hmax, hsave⟩ := GroupEndpoints.moveAsync_saves hi h
  subst hid
  have hout : ∀ q ∈ parent, q ∈ s.groups ∧ ¬ Under '/' g.fullPath q.fullPath := fun q hq =>
    ⟨(hpm q hq).1, GroupEndpoints.isDescendantAsync_false hculture ((findGroup_iff hi.ids).2 ⟨hg, rfl⟩)
      ((findGroup_iff hi.ids).2 ⟨(hpm q hq).1, rfl⟩) (hpm q hq).2⟩
  rw [hsave]
  refine inv_relocate hi hg rfl hout ⟨hpid, rfl⟩ rfl (hi.slugs g hg) ?_ hmax
  intro x hx hxp hxs
  exact hi.id_inj hx hg (hsib x hx hxp hxs)

theorem inv_createProject (hi : Inv s) {env : GroupEndpoints.Ambient} {body : ProjectEndpoints.CreateProjectRequest}
    (h : (ProjectEndpoints.createProjectAsync chars env body).eval s = .save cs r)
    (hok : (s.applyAll cs).indexesOk = true) : Inv (s.applyAll cs) := by
  obtain ⟨slug, m, rfl, hgroup, hsib⟩ := ProjectEndpoints.createProjectAsync_saves h
  have hids : (s.projects ++ [ProjectEndpoints.newProject chars env body slug]).map Project.id |>.Nodup :=
    Store.projects_nodup hok
  rw [List.map_append, List.nodup_append] at hids
  have hnew : ∀ q ∈ s.projects, q.id ≠ env.newId := fun q hq =>
    hids.2.2 _ (List.mem_map_of_mem hq) _ (List.mem_singleton.2 rfl)
  have hp : Inv (s.apply (.addProject (ProjectEndpoints.newProject chars env body slug))) :=
    inv_addProject hi hnew hgroup hsib
  exact { hp with }

/-- A project row is renamed or moved to an existing group, off its siblings' slugs. -/
theorem inv_retitles (hi : Inv s) {id : Guid} {p p' : Project} (h : ProjectEndpoints.Retitles s id cs p p')
    (hgroup : ∀ k, p'.groupId = some k → ∃ g ∈ s.groups, g.id = k)
    (hsib : ∀ q ∈ s.projects, q.groupId = p'.groupId → q.slug = p'.slug → q = p) : Inv (s.applyAll cs) := by
  rw [h.changes]
  unfold ProjectEndpoints.detectChange
  split
  · exact hi
  · exact inv_updateProject hi h.mem h.fixed.1 h.fixed.2.1 h.fixed.2.2 hgroup hsib

theorem inv_updateProjectAsync (hi : Inv s) {id : Guid} {body : ProjectEndpoints.UpdateProjectRequest}
    (h : (ProjectEndpoints.updateProjectAsync chars id body).eval s = .save cs r) : Inv (s.applyAll cs) := by
  obtain ⟨p, p', hr, hgroup, hslug⟩ := ProjectEndpoints.updateProjectAsync_saves h
  refine inv_retitles hi hr (fun k hk => hi.projectGroups p hr.mem k (hgroup ▸ hk)) fun q hq hqg hqs => ?_
  rcases hslug with hsame | hfree
  · exact hi.projectSlugs q hq p hr.mem (hqg.trans hgroup) (hqs.trans hsame)
  · have hqid := hfree q hq (hqg.trans hgroup) hqs
    exact List.inj_on_of_nodup_map hi.projectIds hq hr.mem (hqid.trans hr.id_eq.symm)

theorem inv_moveProject (hi : Inv s) {id : Guid} {body : ProjectEndpoints.MoveProjectRequest}
    (h : (ProjectEndpoints.moveProjectAsync id body).eval s = .save cs r) : Inv (s.applyAll cs) := by
  obtain ⟨p, p', hr, hgroup, hfree⟩ := ProjectEndpoints.moveProjectAsync_saves h
  refine inv_retitles hi hr hgroup fun q hq hqg hqs => ?_
  exact List.inj_on_of_nodup_map hi.projectIds hq hr.mem ((hfree q hq hqg hqs).trans hr.id_eq.symm)

end Steps

theorem inv_serve {chars : CharTable} (hculture : chars.RecognisesPaths) {s : Store} (hi : Inv s) (e : Event) :
    Inv (serve chars s e) := by
  unfold serve
  cases h : (handle chars e.request).eval s with
  | answer r => exact hi
  | save cs r =>
    dsimp only
    cases hs : s.saveChanges e.accepted cs with
    | none => exact hi
    | some s' =>
      obtain ⟨rfl, hok⟩ := Store.saveChanges_some hs
      dsimp only [Option.getD_some]
      cases hr : e.request with
      | createGroup env body => exact inv_createGroup hi (hr ▸ h) hok
      | updateGroup id body => exact inv_updateGroup hi (hr ▸ h)
      | moveGroup id body => exact inv_moveGroup hculture hi (hr ▸ h)
      | deleteGroup id => exact inv_deleteGroup hi (hr ▸ h)
      | createProject env body => exact inv_createProject hi (hr ▸ h) hok
      | updateProject id body => exact inv_updateProjectAsync hi (hr ▸ h)
      | moveProject id body => exact inv_moveProject hi (hr ▸ h)

theorem inv_serveAll {chars : CharTable} (hculture : chars.RecognisesPaths) (es : List Event) {s : Store} (hi : Inv s) :
    Inv (serveAll chars s es) := by
  induction es generalizing s with
  | nil => exact hi
  | cons e es ih => exact ih (inv_serve hculture hi e)

/-- A group, one under it and one beside it; the first is refused under its child, and moves under the other. -/
def movesOfParent : List Event :=
  [⟨.createGroup ⟨9, 1, 11, 0⟩ ⟨some "a".toList, none, none, none⟩, true⟩,
    ⟨.createGroup ⟨9, 2, 12, 0⟩ ⟨some "b".toList, none, none, some 1⟩, true⟩,
    ⟨.createGroup ⟨9, 3, 13, 0⟩ ⟨some "a-b".toList, none, none, none⟩, true⟩,
    ⟨.moveGroup 1 ⟨some 2⟩, true⟩, ⟨.moveGroup 1 ⟨some 3⟩, true⟩]

end DuckRun.Dashboard
