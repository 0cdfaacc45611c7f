import DuckRun.Dashboard.Contexts
/-!
# The units of work are the handlers

Run in a fresh context, each handler of `Contexts.lean` that changes groups or
projects asks what the handler of the endpoint modules asks, and ends in the
outcome it ends in: the tracked entities hold exactly what the other one
passes along, and no save happens before the last one.
-/

namespace DuckRun.Dashboard

open DuckRun.Lib DuckRun.Lib.UnitOfWork DuckRun.Lib.Session

/-! ## Contexts -/

namespace ChangeTracker

@[simp] theorem detectChanges_attach_nil (rows : List Group) : (attach [] rows).detectChanges = [] := by
  refine List.map_eq_nil_iff.2 (List.filter_eq_nil_iff.2 fun e he => ?_)
  obtain ⟨g, -, rfl⟩ := List.mem_map.1 he
  simp

theorem find_attach_isSome (t : ChangeTracker) {rows : List Group} {g : Group} (hg : g ∈ rows) :
    (find (attach t rows) g.id).isSome := by
  cases h : find t g.id with
  | some e => rw [attach, find_append_left h]; rfl
  | none =>
    refine List.find?_isSome.2 ⟨⟨g, g⟩, List.mem_append_right _ (List.mem_map_of_mem ?_), by simp⟩
    exact List.mem_filter.2 ⟨hg, by rw [h]; rfl⟩

end ChangeTracker

namespace DbContext

@[simp] theorem groups_setGroups (ctx : DbContext) (t : ChangeTracker) : (ctx.setGroups t).groups = t := rfl

@[simp] theorem setGroups_setGroups (ctx : DbContext) (t t' : ChangeTracker) :
    (ctx.setGroups t).setGroups t' = ctx.setGroups t' := rfl

theorem queue_queue (ctx : DbContext) (cs ds : List Change) : (ctx.queue cs).queue ds = ctx.queue (cs ++ ds) := by
  simp [queue]

/-- What a context with groups only saves. -/
theorem detectChanges_groups (t : ChangeTracker) : (empty.setGroups t).detectChanges = t.detectChanges.map .entity := by
  simp [detectChanges, setGroups, empty]

theorem detectChanges_queue (t : ChangeTracker) (cs : List Change) :
    ((empty.setGroups t).queue cs).detectChanges = (cs ++ t.detectChanges).map .entity := by
  simp [detectChanges, queue, setGroups, empty]

theorem detectChanges_member (o c : GroupMember) :
    (empty.setGroupMembers [⟨o, c⟩]).detectChanges = if o = c then [] else [.updateGroupMember o c] := by
  by_cases h : o = c
  · subst h
    simp [detectChanges, setGroupMembers, empty, ChangeTracker.detectChanges]
  · simp [detectChanges, setGroupMembers, empty, ChangeTracker.detectChanges, h]

/-- The entities keep their values when they are saved. -/
theorem image_acceptAllChanges (ctx : DbContext) (g : Group) :
    ctx.acceptAllChanges.groups.image g = ctx.groups.image g := by
  have hfind : ∀ t : ChangeTracker,
      ChangeTracker.find (t.map fun e => { e with original := { e.current with id := e.original.id } }) g.id =
        (ChangeTracker.find t g.id).map fun e => { e with original := { e.current with id := e.original.id } } := by
    intro t
    rw [ChangeTracker.find, List.find?_map]
    rfl
  unfold ChangeTracker.image acceptAllChanges
  dsimp only
  rw [hfind]
  cases ChangeTracker.find ctx.groups g.id <;> rfl

end DbContext

/-! ## Following a handler -/

/-- What is left to do with an outcome. -/
def Outcome.finish : Outcome → Session Database (List Pending) IResult
  | .answer r => .done (.result r)
  | .save cs r => .save (cs.map .entity) (.done (.result r))

namespace Work

/-- From the context `ctx` on, the unit of work is the handler. -/
abbrev Handles (ctx : DbContext) (w : Work IResult) (h : Handler) : Prop :=
  Follows Database.store (fun r => .done (result .result r)) Outcome.finish ctx w h

/-- Both save the same, and answer the same after that. -/
theorem handles_save {ctx : DbContext} {f : Unit → Work IResult} {cs : List Change} {r : Response}
    (hcs : ctx.detectChanges = cs.map .entity)
    (hf : (f () ctx.acceptAllChanges).bind (fun r => .done (result .result r)) = .done (.result r)) :
    Handles ctx (saveChangesAsync >>= f) (pure (.save cs r)) := by
  change Session.save ctx.detectChanges ((f () ctx.acceptAllChanges).bind _) = Session.save (cs.map .entity) _
  rw [hcs, hf]

/-- Reading the values a tracked group has now. -/
theorem handles_group {ctx : DbContext} {g now : Group} {f : Group → Work IResult} {h : Handler}
    (hnow : ctx.groups.image g = now) (hf : Handles ctx (f now) h) : Handles ctx (Work.group g >>= f) h :=
  .memory (hnow ▸ hf)

/-- Saving tracked groups and answering with one of them. -/
theorem handles_save_group (t : ChangeTracker) (g : Group) :
    Handles (DbContext.empty.setGroups t)
      (saveChangesAsync >>= fun _ => Work.group g >>= fun x => pure (.result (.json x.serialize)))
      (pure (.save t.detectChanges (.json (t.image g).serialize))) := by
  refine handles_save (DbContext.detectChanges_groups t) ?_
  have h := DbContext.image_acceptAllChanges (DbContext.empty.setGroups t) g
  rw [DbContext.groups_setGroups] at h
  rw [← h]
  rfl

section Handlers
variable {chars : CharTable}

/-! ### Groups -/

theorem findGroupAsync_asks (ctx : DbContext) (id : Guid) :
    Asks Database.store (fun
      | none => .ok (none, ctx)
      | some (g, t) => .ok (some g, ctx.setGroups t)) ctx (findGroupAsync id) (GroupEndpoints.findAsync ctx.groups id) := by
  unfold findGroupAsync GroupEndpoints.findAsync
  refine .memory ?_
  cases ctx.groups.find id with
  | some e => exact .ret rfl
  | none =>
    refine .queries fun g => ?_
    cases g with
    | none => exact .ret rfl
    | some g => exact .assign (.ret rfl)

/-- In a context that tracks nothing yet. -/
theorem findGroupAsync_fresh (id : Guid) :
    Asks Database.store (fun g => .ok (g, DbContext.empty.setGroups (ChangeTracker.attach [] g.toList))) DbContext.empty
      (findGroupAsync id) (Queries.query fun s => s.findGroup id) := by
  refine congrArg (Session.ask _) (funext fun g => ?_)
  cases g with
  | none => rfl
  | some g => rfl

theorem createParent_asks (parentId : Option Guid) :
    Asks Database.store (fun
      | .error r => .error r
      | .ok parent => .ok (parent, DbContext.empty.setGroups (ChangeTracker.attach [] parent.toList)))
      DbContext.empty (createParent parentId) (GroupEndpoints.createParent parentId) := by
  cases parentId with
  | none => exact .ret rfl
  | some parentId =>
    refine .bind (findGroupAsync_fresh _) ?_ (by rintro g r ⟨⟩)
    rintro (_ | g) _ ctx ⟨⟩
    · exact .early rfl
    · exact .ite (fun _ => .early_bind rfl) fun _ => .ret rfl

theorem createAsync_handles (env : GroupEndpoints.Ambient) (body : GroupEndpoints.CreateGroupRequest) :
    Handles DbContext.empty (createAsync chars env body) (GroupEndpoints.createAsync chars env body) := by
  unfold createAsync GroupEndpoints.createAsync
  refine .ite (fun _ => .early_bind rfl) fun _ => ?_
  generalize normalizeSlug chars _ = slug
  refine .ite (fun _ => .early_bind rfl) fun _ => ?_
  refine .bind (createParent_asks _) ?_ ?_
  · rintro (r | parent) _ ctx ⟨⟩
    refine .queries fun siblingExists => .ite (fun _ => .early_bind rfl) fun _ => ?_
    refine .assign (.assign (handles_save ?_ rfl))
    rw [DbContext.queue_queue, DbContext.detectChanges_queue, ChangeTracker.detectChanges_attach_nil]
    rfl
  · rintro (r | parent) r' ⟨⟩
    exact .early rfl

theorem deleteAsync_handles (id : Guid) : Handles DbContext.empty (deleteAsync id) (GroupEndpoints.deleteAsync id) := by
  refine .bind (findGroupAsync_fresh _) ?_ (by rintro g r ⟨⟩)
  rintro (_ | group) _ ctx ⟨⟩
  · exact .early rfl
  refine .queries fun hasSubgroups => .queries fun hasProjects => .ite (fun _ => .early_bind rfl) fun _ => ?_
  refine .queries fun members => .assign (.assign (handles_save ?_ rfl))
  rw [DbContext.queue_queue, DbContext.detectChanges_queue, ChangeTracker.detectChanges_attach_nil, List.append_nil]

theorem rewriteParent_asks (ctx : DbContext) (np : Option Guid) :
    Asks Database.store (fun
      | .error e => .error (.fault e)
      | .ok (p, t) => .ok (p, ctx.setGroups t)) ctx (rewriteParent np) (GroupEndpoints.rewriteParent ctx.groups np) := by
  cases np with
  | none => exact .ret rfl
  | some np =>
    refine .bind (findGroupAsync_asks ctx np) ?_ (by rintro (_ | ⟨g, t⟩) r ⟨⟩)
    rintro (_ | ⟨g, t⟩) _ ctx' ⟨⟩
    · exact .early rfl
    · exact .ret rfl

theorem relocateEntity_apply (oldPath newPath : Text) (delta : Int) (d : Group) (ctx : DbContext) :
    relocateEntity oldPath newPath delta d ctx =
      if (ctx.groups.image d).fullPath.length < oldPath.length then
        .done (.error (.fault "startIndex cannot be larger than length of string."))
      else .done (.ok ((), ctx.setGroups (ctx.groups.modify d.id (GroupEndpoints.relocate oldPath newPath delta)))) := by
  unfold relocateEntity
  rw [bind_apply]
  change (if _ then _ else _ : Work Unit) ctx = _
  split <;> rfl

/-- The loop, as the fold over the tracker. -/
theorem relocateEntity_forIn (oldPath newPath : Text) (delta : Int) {ds : List Group} {ctx : DbContext}
    (hheld : ∀ d ∈ ds, (ctx.groups.find d.id).isSome) :
    (forIn ds PUnit.unit fun d _ => do
        relocateEntity oldPath newPath delta d
        pure (ForInStep.yield PUnit.unit) : Work PUnit) ctx =
      .done (match ds.foldlM (GroupEndpoints.relocateStep oldPath newPath delta) ctx.groups with
        | none => .error (.fault "startIndex cannot be larger than length of string.")
        | some t => .ok (PUnit.unit, ctx.setGroups t)) := by
  induction ds generalizing ctx with
  | nil => rfl
  | cons d ds ih =>
    obtain ⟨e, he⟩ := Option.isSome_iff_exists.1 (hheld d List.mem_cons_self)
    have himage : ctx.groups.image d = e.current := by rw [ChangeTracker.image, he]; rfl
    have hfold : GroupEndpoints.relocateStep oldPath newPath delta ctx.groups d =
        if e.current.fullPath.length < oldPath.length then none
        else some (ctx.groups.modify d.id (GroupEndpoints.relocate oldPath newPath delta)) := by
      rw [GroupEndpoints.relocateStep, he]
      rfl
    rw [List.forIn_cons, List.foldlM_cons, hfold, bind_apply, bind_apply, relocateEntity_apply, himage]
    split
    · rfl
    · have hnext : ∀ d' ∈ ds, ((ctx.setGroups (ctx.groups.modify d.id
          (GroupEndpoints.relocate oldPath newPath delta))).groups.find d'.id).isSome := by
        intro d' hd'
        rw [DbContext.groups_setGroups, ChangeTracker.find_modify, Option.isSome_map]
        exact hheld d' (List.mem_cons_of_mem _ hd')
      exact ih hnext

theorem rewritePathsAsync_asks (ctx : DbContext) (group : Group) (np : Option Guid) (newSlug : Text) :
    Asks Database.store (fun
      | .error e => .error (.fault e)
      | .ok t => .ok ((), ctx.setGroups t)) ctx (rewritePathsAsync group np newSlug)
      (GroupEndpoints.rewritePathsAsync ctx.groups group np newSlug) := by
  refine .bind (rewriteParent_asks ctx np) ?_ ?_
  · rintro (e | ⟨p, t⟩) _ ctx' ⟨⟩
    refine .queries fun descendants => .assign (.assign ?_)
    simp only [DbContext.groups_setGroups, DbContext.setGroups_setGroups]
    refine .bind_done (relocateEntity_forIn _ _ _ fun d hd => ?_) ?_ ?_
    · rw [DbContext.groups_setGroups, ChangeTracker.find_modify, Option.isSome_map]
      exact ChangeTracker.find_attach_isSome t hd
    · rintro ⟨⟩ ctx' h
      split at h
      · cases h
      · rename_i t' hfold
        rw [DbContext.groups_setGroups] at hfold
        cases h
        rw [hfold]
        exact .ret rfl
    · intro r h
      split at h
      · rename_i hfold
        rw [DbContext.groups_setGroups] at hfold
        cases h
        rw [hfold]
        exact .early rfl
      · cases h
  · rintro (e | ⟨p, t⟩) r ⟨⟩
    exact .early rfl

theorem updateFields_apply (body : GroupEndpoints.UpdateGroupRequest) (stored : Group) :
    updateFields chars body stored (DbContext.empty.setGroups [⟨stored, stored⟩]) =
      .done ((GroupEndpoints.updateFields chars body stored).map fun g =>
        ((), DbContext.empty.setGroups [⟨stored, g⟩])) := by
  have hassign : ∀ (g : Group) (f : Group → Group),
      (DbContext.empty.setGroups [⟨stored, g⟩]).setGroups
          ((DbContext.empty.setGroups [⟨stored, g⟩]).groups.modify stored.id f) =
        DbContext.empty.setGroups [⟨stored, f g⟩] := by
    intro g f
    simp [ChangeTracker.modify]
  have hdescribe : ∀ g : Group, describe chars body stored (DbContext.empty.setGroups [⟨stored, g⟩]) =
      .done (.ok ((), DbContext.empty.setGroups [⟨stored, GroupEndpoints.updateFields.describe chars body g⟩])) := by
    intro g
    unfold describe GroupEndpoints.updateFields.describe
    cases body.description with
    | none => rfl
    | some d => exact congrArg (fun c => Session.done (Except.ok ((), c))) (hassign g _)
  unfold updateFields GroupEndpoints.updateFields
  cases body.name with
  | none => exact hdescribe stored
  | some newName =>
    dsimp only
    split
    · rfl
    · rw [bind_apply]
      unfold assignGroup
      rw [assign_apply, hassign]
      exact hdescribe _

theorem moveTarget_asks (id : Guid) (ctx : DbContext) (np : Option Guid) :
    Asks Database.store (fun
      | .error r => .error r
      | .ok (n, t) => .ok (n, ctx.setGroups t)) ctx (moveTarget chars id np) (GroupEndpoints.moveTarget chars id ctx.groups np) := by
  cases np with
  | none => exact .ret rfl
  | some np =>
    refine .bind (findGroupAsync_asks ctx np) ?_ (by rintro (_ | ⟨g, t⟩) r ⟨⟩)
    rintro (_ | ⟨g, t⟩) _ ctx' ⟨⟩
    · exact .early rfl
    · refine .queries fun below => .ite (fun _ => .early_bind rfl) fun _ => .ret rfl

theorem moveAsync_handles (id : Guid) (body : GroupEndpoints.MoveGroupRequest) :
    Handles DbContext.empty (moveAsync chars id body) (GroupEndpoints.moveAsync chars id body) := by
  refine .bind (findGroupAsync_fresh id) ?_ (by rintro g r ⟨⟩)
  rintro (_ | group) _ ctx ⟨⟩
  · exact .early rfl
  refine .ite (fun _ => .early_bind rfl) fun _ => ?_
  refine .bind (moveTarget_asks id _ _) ?_ ?_
  · rintro (r | ⟨n, t⟩) _ ctx' ⟨⟩
    refine .queries fun deepest => ?_
    cases deepest with
    | none => exact .early rfl
    | some m =>
      refine .ite (fun _ => .early_bind rfl) fun _ => .queries fun collision => .ite (fun _ => .early_bind rfl) fun _ => ?_
      refine .bind (rewritePathsAsync_asks _ _ _ _) ?_ ?_
      · rintro (e | t') _ ctx'' ⟨⟩
        exact handles_save_group t' group
      · rintro (e | t') r ⟨⟩
        exact .early rfl
  · rintro (r | ⟨n, t⟩) r' ⟨⟩
    exact .early rfl

theorem updateAsync_handles (id : Guid) (body : GroupEndpoints.UpdateGroupRequest) :
    Handles DbContext.empty (updateAsync chars id body) (GroupEndpoints.updateAsync chars id body) := by
  refine .bind (findGroupAsync_fresh id) ?_ (by rintro g r ⟨⟩)
  rintro (_ | stored) _ ctx ⟨⟩
  · exact .early rfl
  have hfields := @updateFields_apply chars body stored
  dsimp only
  cases hu : GroupEndpoints.updateFields chars body stored with
  | error r =>
    rw [hu] at hfields
    exact .bind_done hfields (by rintro a ctx ⟨⟩) (by rintro _ ⟨⟩; exact .early rfl)
  | ok group =>
    rw [hu] at hfields
    refine .bind_done hfields ?_ (by rintro _ ⟨⟩)
    rintro _ ctx ⟨⟩
    have himage : ChangeTracker.image [⟨stored, group⟩] stored = group := by
      simp [ChangeTracker.image, ChangeTracker.find]
    have hsave := handles_save_group [⟨stored, group⟩] stored
    rw [himage] at hsave
    cases body.slug with
    | none => exact hsave
    | some slugIn =>
      refine .ite (fun _ => .early_bind rfl) fun _ => handles_group himage ?_
      refine .ite_not (fun _ => ?_) fun _ => hsave
      refine .queries fun collision => .ite (fun _ => .early_bind rfl) fun _ => ?_
      refine .bind (rewritePathsAsync_asks _ _ _ _) ?_ ?_
      · rintro (e | t) _ ctx ⟨⟩
        exact handles_save_group t stored
      · rintro (e | t) r ⟨⟩
        exact .early rfl

/-! ### Projects -/

theorem requireGroup_asks (ctx : DbContext) (groupId : Option Guid) :
    Asks Database.store (fun
      | some r => .error r
      | none => .ok ((), ctx)) ctx (requireGroup groupId) (ProjectEndpoints.requireGroup groupId) := by
  cases groupId with
  | none => exact .ret rfl
  | some gid =>
    refine .queries fun groupExists => ?_
    cases groupExists with
    | true => exact .ret rfl
    | false => exact .early rfl

theorem findProjectAsync_fresh (id : Guid) :
    Asks Database.store (fun p => .ok (p, DbContext.empty.setProjects (p.toList.map fun p => ⟨p, p⟩))) DbContext.empty
      (findProjectAsync id) (Queries.query fun s => s.findProject id) := by
  refine congrArg (Session.ask _) (funext fun p => ?_)
  cases p with
  | none => rfl
  | some p => rfl

theorem project_apply {o p : Project} (c : Project) (hid : o.id = p.id) :
    Work.project p (DbContext.empty.setProjects [⟨o, c⟩]) = .done (.ok (c, DbContext.empty.setProjects [⟨o, c⟩])) := by
  unfold Work.project
  simp [DbContext.setProjects, hid]

theorem assignProject_apply (o c : Project) (u : Project → Project) :
    assignProject o.id u (DbContext.empty.setProjects [⟨o, c⟩]) =
      .done (.ok ((), DbContext.empty.setProjects [⟨o, u c⟩])) := by
  unfold assignProject
  simp [DbContext.setProjects]

theorem updateName_apply (body : ProjectEndpoints.UpdateProjectRequest) (stored : Project) :
    updateName chars body stored (DbContext.empty.setProjects [⟨stored, stored⟩]) =
      .done ((ProjectEndpoints.updateName chars body stored).map fun p =>
        ((), DbContext.empty.setProjects [⟨stored, p⟩])) := by
  unfold updateName ProjectEndpoints.updateName
  cases body.name with
  | none => rfl
  | some newName =>
    dsimp only
    split
    · rfl
    · exact assignProject_apply stored stored _

/-- Saving the one tracked project and answering with it. -/
theorem handles_save_project (o c : Project) :
    Handles (DbContext.empty.setProjects [⟨o, c⟩])
      (saveChangesAsync >>= fun _ => Work.project o >>= fun x => pure (.result (.json x.serialize)))
      (pure (.save (ProjectEndpoints.detectChange o c) (.json c.serialize))) := by
  refine handles_save (by simp [DbContext.detectChanges, DbContext.setProjects, DbContext.empty, ChangeTracker.detectChanges]) ?_
  have haccepted : (DbContext.empty.setProjects [⟨o, c⟩]).acceptAllChanges =
      DbContext.empty.setProjects [⟨{ c with id := o.id }, c⟩] := rfl
  have hread : Work.project o (DbContext.empty.setProjects [⟨{ c with id := o.id }, c⟩]) =
      .done (.ok (c, DbContext.empty.setProjects [⟨{ c with id := o.id }, c⟩])) := project_apply c rfl
  rw [haccepted, bind_apply, hread]
  rfl

theorem createProjectAsync_handles (env : GroupEndpoints.Ambient) (body : ProjectEndpoints.CreateProjectRequest) :
    Handles DbContext.empty (createProjectAsync chars env body) (ProjectEndpoints.createProjectAsync chars env body) := by
  unfold createProjectAsync ProjectEndpoints.createProjectAsync
  refine .ite (fun _ => .early_bind rfl) fun _ => ?_
  generalize normalizeSlug chars _ = slug
  refine .ite (fun _ => .early_bind rfl) fun _ => ?_
  refine .bind (requireGroup_asks _ _) ?_ ?_
  · rintro (_ | r) _ ctx ⟨⟩
    refine .queries fun collision => .ite (fun _ => .early_bind rfl) fun _ => ?_
    exact .assign (.assign (handles_save rfl rfl))
  · rintro (_ | r) r' ⟨⟩
    exact .early rfl

theorem moveProjectAsync_handles (id : Guid) (body : ProjectEndpoints.MoveProjectRequest) :
    Handles DbContext.empty (moveProjectAsync id body) (ProjectEndpoints.moveProjectAsync id body) := by
  refine .bind (findProjectAsync_fresh id) ?_ (by rintro p r ⟨⟩)
  rintro (_ | p) _ ctx ⟨⟩
  · exact .early rfl
  refine .bind (requireGroup_asks _ _) ?_ ?_
  · rintro (_ | r) _ ctx ⟨⟩
    refine .queries fun collision => .ite (fun _ => .early_bind rfl) fun _ => ?_
    refine .bind_done (assignProject_apply p p _) ?_ (by rintro _ ⟨⟩)
    rintro _ ctx ⟨⟩
    exact handles_save_project p _
  · rintro (_ | r) r' ⟨⟩
    exact .early rfl

theorem updateProjectAsync_handles (id : Guid) (body : ProjectEndpoints.UpdateProjectRequest) :
    Handles DbContext.empty (updateProjectAsync chars id body) (ProjectEndpoints.updateProjectAsync chars id body) := by
  refine .bind (findProjectAsync_fresh id) ?_ (by rintro p r ⟨⟩)
  rintro (_ | stored) _ ctx ⟨⟩
  · exact .early rfl
  have hname := @updateName_apply chars body stored
  dsimp only
  cases hu : ProjectEndpoints.updateName chars body stored with
  | error r =>
    rw [hu] at hname
    exact .bind_done hname (by rintro a ctx ⟨⟩) (by rintro _ ⟨⟩; exact .early rfl)
  | ok p =>
    rw [hu] at hname
    refine .bind_done hname ?_ (by rintro _ ⟨⟩)
    rintro _ ctx ⟨⟩
    cases body.slug with
    | none => exact handles_save_project stored p
    | some slugIn =>
      refine .ite (fun _ => .early_bind rfl) fun _ => .bind_done (project_apply p rfl) ?_ (by rintro _ ⟨⟩)
      rintro _ ctx ⟨⟩
      refine .ite_not (fun _ => ?_) fun _ => handles_save_project stored p
      refine .queries fun collision => .ite (fun _ => .early_bind rfl) fun _ => ?_
      refine .bind_done (assignProject_apply stored p _) ?_ (by rintro _ ⟨⟩)
      rintro _ ctx ⟨⟩
      exact handles_save_project stored _

end Handlers

end Work

theorem hierarchyHandler_handles (chars : CharTable) (r : Request) :
    Work.Handles DbContext.empty (hierarchyHandler chars r) (handle chars r) := by
  cases r with
  | createGroup env body => exact Work.createAsync_handles env body
  | updateGroup id body => exact Work.updateAsync_handles id body
  | moveGroup id body => exact Work.moveAsync_handles id body
  | deleteGroup id => exact Work.deleteAsync_handles id
  | createProject env body => exact Work.createProjectAsync_handles env body
  | updateProject id body => exact Work.updateProjectAsync_handles id body
  | moveProject id body => exact Work.moveProjectAsync_handles id body

/-- A request of the hierarchy runs its handler and finishes the outcome. -/
theorem hierarchy_session (chars : CharTable) (r : Request) :
    (AnyRequest.hierarchy r).session chars =
      (Session.ofQueries Database.store (handle chars r)).bind Outcome.finish :=
  hierarchyHandler_handles chars r

/-! ## The member handlers -/

section Members
variable (chars : CharTable)

theorem addMember_session (id newMemberId : Guid) (now : DateTime) (email role : Option Text) :
    (AnyRequest.member (.add id newMemberId now email role)).session chars =
      if isNullOrWhiteSpace chars email then done (.result (.badRequest "Email is required."))
      else ask (fun db => db.store.findGroup id) fun
        | none => done (.result .notFound)
        | some _ => ask (fun db => db.users.find? fun u => u.email = trim chars (email.getD [])) fun
          | none => done (.result (.badRequest s!"No user with email '{String.ofList (email.getD [])}'."))
          | some user => ask (fun db => db.store.groupMembers.any fun m => m.groupId = id && m.userId = user.id) fun
            | true => done (.result (.conflict "User is already a member of this group."))
            | false => save [.entity (.addGroupMember ⟨newMemberId, id, user.id, normalizeRole chars role, now⟩)]
              (done (.memberCreated s!"/api/groups/{guidText id}/members/{guidText newMemberId}"
                ⟨newMemberId, user.id, user.email, user.displayName, normalizeRole chars role, now⟩)) := by
  unfold AnyRequest.session memberHandler Work.addMemberAsync
  dsimp only
  split
  · rfl
  refine congrArg (ask _) (funext fun group => ?_)
  cases group with
  | none => rfl
  | some g =>
    refine congrArg (ask _) (funext fun user => ?_)
    cases user with
    | none => rfl
    | some user =>
      refine congrArg (ask _) (funext fun existing => ?_)
      cases existing with
      | true => rfl
      | false =>
        have hsent : ∀ c, ((DbContext.empty.setGroups (ChangeTracker.attach [] [g])).queue [c]).detectChanges =
            [.entity c] := by
          intro c
          rw [DbContext.detectChanges_queue, ChangeTracker.detectChanges_attach_nil]
          rfl
        exact congrArg (fun ps => save ps _) (hsent _)

/-- The changes that give a member a role. -/
def roleChange (m : GroupMember) (role : Text) : List Pending :=
  if m.role = role then [] else [.updateGroupMember m { m with role := role }]

/-- What `UpdateMemberAsync` does with the row it found. -/
theorem assignRole_save (m : GroupMember) (role : Text) :
    ((do
      Work.assignMember m.id fun m => { m with role := role }
      Work.saveChangesAsync
      let member ← Work.member m
      return .memberJson member.id member.role : Work IResult) (DbContext.empty.setGroupMembers [⟨m, m⟩])).bind
        (fun r => done (UnitOfWork.result .result r)) = save (roleChange m role) (done (.memberJson m.id role)) := by
  have hassign : Work.assignMember m.id (fun m => { m with role := role }) (DbContext.empty.setGroupMembers [⟨m, m⟩]) =
      done (.ok ((), DbContext.empty.setGroupMembers [⟨m, { m with role := role }⟩])) := by
    unfold Work.assignMember
    simp [DbContext.setGroupMembers]
  have hsent : (DbContext.empty.setGroupMembers [⟨m, { m with role := role }⟩]).detectChanges = roleChange m role := by
    have hsame : m = { m with role := role } ↔ m.role = role :=
      ⟨fun h => congrArg GroupMember.role h, fun h => by rw [← h]⟩
    rw [DbContext.detectChanges_member]
    exact if_congr hsame rfl rfl
  have hread : Work.member m (DbContext.empty.setGroupMembers [⟨m, { m with role := role }⟩]).acceptAllChanges =
      done (.ok ({ m with role := role },
        (DbContext.empty.setGroupMembers [⟨m, { m with role := role }⟩]).acceptAllChanges)) := by
    unfold Work.member
    simp [DbContext.setGroupMembers, DbContext.acceptAllChanges]
  rw [UnitOfWork.bind_apply, hassign, ← hsent]
  refine congrArg (save _) ?_
  rw [done_bind, UnitOfWork.andThen_ok, UnitOfWork.bind_apply, hread]
  rfl

theorem updateMember_session (id memberId : Guid) (role : Option Text) :
    (AnyRequest.member (.update id memberId role)).session chars =
      ask (fun db => db.store.findMember id memberId) fun
        | none => done (.result .notFound)
        | some m => save (roleChange m (normalizeRole chars role)) (done (.memberJson m.id (normalizeRole chars role))) := by
  refine congrArg (ask _) (funext fun member => ?_)
  cases member with
  | none => rfl
  | some m => exact assignRole_save m _

theorem removeMember_session (id memberId : Guid) :
    (AnyRequest.member (.remove id memberId)).session chars =
      ask (fun db => db.store.findMember id memberId) fun
        | none => done (.result .notFound)
        | some m => save [.entity (.removeGroupMember m.id)] (done (.result .noContent)) := by
  refine congrArg (ask _) (funext fun member => ?_)
  cases member with
  | none => rfl
  | some m =>
    have hsent : ((DbContext.empty.setGroupMembers [⟨m, m⟩]).queue [.removeGroupMember m.id]).detectChanges =
        [.entity (.removeGroupMember m.id)] := by
      simp [DbContext.detectChanges, DbContext.queue, DbContext.setGroupMembers, DbContext.empty, ChangeTracker.detectChanges]
    exact congrArg (fun ps => save ps _) hsent

end Members

/-! ## One request at a time -/

/-- `ctx.Users` by email. -/
def Database.userId (db : Database) (email : Text) : Option Guid := (db.users.find? fun u => u.email = email).map User.id

def AnyRequest.event (accepted : Bool) : AnyRequest → AnyEvent
  | .hierarchy r => .hierarchy ⟨r, accepted⟩
  | .member r => .member r accepted

theorem getD_commit (accepted : Bool) (db : Database) (ps : List Pending) :
    (db.commit accepted ps).getD db =
      let s := ps.foldl Store.write db.store
      { db with store := if accepted && s.indexesOk then s else db.store } := by
  unfold Database.commit
  dsimp only
  split <;> rfl

theorem commit_entities (accepted : Bool) (db : Database) (cs : List Change) :
    db.commit accepted (cs.map .entity) = (db.store.saveChanges accepted cs).map fun s => { db with store := s } := by
  have hfold : (cs.map Pending.entity).foldl Store.write db.store = db.store.applyAll cs := List.foldl_map
  unfold Database.commit Store.saveChanges
  rw [hfold]
  dsimp only
  split <;> rfl

section Alone
variable (chars : CharTable)

theorem run_hierarchy (db : Database) (r : Request) (accepted : Bool) :
    (((AnyRequest.hierarchy r).session chars).run (Database.commit accepted) db).2 =
      { db with store := serve chars db.store ⟨r, accepted⟩ } := by
  rw [hierarchy_session, run_ofQueries_bind]
  unfold serve
  cases (handle chars r).eval db.store with
  | answer resp => rfl
  | save cs resp =>
    rw [Outcome.finish, run_save_done, commit_entities]
    cases h : db.store.saveChanges accepted cs with
    | none => simp [h]
    | some s => simp [h]

/-- The role is the only column written. -/
theorem write_role {s : Store} (hs : (s.groupMembers.map GroupMember.id).Nodup) {m : GroupMember}
    (hm : m ∈ s.groupMembers) (role : Text) :
    (roleChange m role).foldl Store.write s =
      { s with groupMembers := updateKey GroupMember.id m.id (fun m => { m with role := role }) s.groupMembers } := by
  have hrow : ∀ x ∈ s.groupMembers, x.id = m.id → x = m := fun x hx hid => List.inj_on_of_nodup_map hs hx hm hid
  unfold roleChange
  split
  · rename_i hrole
    have hsame : updateKey GroupMember.id m.id (fun m => { m with role := role }) s.groupMembers = s.groupMembers := by
      refine (List.map_congr_left fun x hx => ?_).trans (List.map_id _)
      split
      · rw [hrow x hx ‹_›, ← hrole]
        rfl
      · rfl
    rw [hsame]
    rfl
  · have hone : updateKey GroupMember.id m.id (GroupMember.merge m { m with role := role }) s.groupMembers =
        updateKey GroupMember.id m.id (fun m => { m with role := role }) s.groupMembers := by
      refine List.map_congr_left fun x hx => ?_
      split
      · rw [hrow x hx ‹_›, GroupMember.merge, column_self]
      · rfl
    rw [List.foldl_cons, List.foldl_nil, Store.write, hone]

theorem run_member {db : Database} (hs : db.store.indexesOk = true) (r : MemberRequest) (accepted : Bool) :
    (((AnyRequest.member r).session chars).run (Database.commit accepted) db).2 =
      { db with store := serveAny chars db.userId db.store (.member r accepted) } := by
  cases r with
  | add id newMemberId now email role =>
    rw [addMember_session]
    unfold serveAny saveMember
    dsimp only
    split
    · rfl
    rw [run_ask]
    cases hg : db.store.findGroup id with
    | none => rfl
    | some g =>
      dsimp only
      rw [run_ask]
      unfold Database.userId
      cases db.users.find? fun u => u.email = trim chars (email.getD []) with
      | none => rfl
      | some user =>
        dsimp only [Option.map_some, Option.bind_eq_bind, Option.bind_some]
        rw [run_ask, (findGroup_mem hg).2]
        cases db.store.groupMembers.any fun m => m.groupId = id && m.userId = user.id with
        | true => rfl
        | false =>
          dsimp only
          rw [run_save_done, getD_commit]
          rfl
  | update id memberId role =>
    rw [updateMember_session, run_ask]
    unfold serveAny saveMember
    dsimp only
    cases h : db.store.findMember id memberId with
    | none => rfl
    | some m =>
      dsimp only
      rw [run_save_done, getD_commit, write_role (Store.groupMembers_nodup hs) (List.mem_of_find?_eq_some h)]
      rfl
  | remove id memberId =>
    rw [removeMember_session, run_ask]
    unfold serveAny saveMember
    dsimp only
    cases h : db.store.findMember id memberId with
    | none => rfl
    | some m =>
      dsimp only
      rw [run_save_done, getD_commit]
      rfl

/-- Alone, a session leaves what the server of `Members.lean` leaves. -/
theorem run_session {db : Database} (hs : db.store.indexesOk = true) (r : AnyRequest) (accepted : Bool) :
    ((r.session chars).run (Database.commit accepted) db).2 =
      { db with store := serveAny chars db.userId db.store (r.event accepted) } := by
  cases r with
  | hierarchy r => exact run_hierarchy chars db r accepted
  | member r => exact run_member chars hs r accepted

end Alone

end DuckRun.Dashboard
