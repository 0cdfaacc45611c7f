import DuckRun.Dashboard.Members
import DuckRun.Dashboard.Writes
import DuckRun.Lib.Sessions
/-!
# The handlers as units of work

Every handler that changes the hierarchy, statement by statement: it assigns to
the entities its context tracks as it goes, may return early with the
assignments made, and calls `SaveChangesAsync` where the source does.
-/

namespace DuckRun.Dashboard

open DuckRun.Lib

structure User where
  id : Guid
  email : Text
  displayName : Option Text
  deriving DecidableEq, Repr

/-- The tables the handlers query. -/
structure Database where
  store : Store
  users : List User
  deriving DecidableEq, Repr

/-! ## The context -/

/-- A tracked entity outside the group table. -/
structure Entry (α : Type) where
  original : α
  current : α

/-- What one `SaveChanges` sends for an entity. -/
inductive Pending where
  | entity (c : Change)
  | updateGroupMember (original current : GroupMember)
  deriving DecidableEq, Repr

def GroupMember.merge (original current row : GroupMember) : GroupMember :=
  { row with role := column original.role current.role row.role }

def Store.write (s : Store) : Pending → Store
  | .entity c => s.apply c
  | .updateGroupMember o c =>
    { s with groupMembers := updateKey GroupMember.id o.id (GroupMember.merge o c) s.groupMembers }

/-- `SaveChangesAsync` on the database: all or nothing, as `Store.saveChanges`. -/
def Database.commit (accepted : Bool) (db : Database) (ps : List Pending) : Option Database :=
  let s := ps.foldl Store.write db.store
  if accepted && s.indexesOk then some { db with store := s } else none

/-- A `DashboardDbContext`: the entities it tracks, and the added and removed ones. -/
structure DbContext where
  groups : ChangeTracker
  projects : List (Entry Project)
  groupMembers : List (Entry GroupMember)
  queued : List Change

namespace DbContext

def empty : DbContext := ⟨[], [], [], []⟩

def setGroups (ctx : DbContext) (t : ChangeTracker) : DbContext := { ctx with groups := t }

def setProjects (ctx : DbContext) (l : List (Entry Project)) : DbContext := { ctx with projects := l }

def setGroupMembers (ctx : DbContext) (l : List (Entry GroupMember)) : DbContext := { ctx with groupMembers := l }

/-- `Add` and `Remove`. -/
def queue (ctx : DbContext) (cs : List Change) : DbContext := { ctx with queued := ctx.queued ++ cs }

def detectChanges (ctx : DbContext) : List Pending :=
  (ctx.queued ++ ctx.groups.detectChanges ++
      ctx.projects.flatMap fun e => ProjectEndpoints.detectChange e.original e.current).map .entity ++
    (ctx.groupMembers.filter fun e => e.original ≠ e.current).map fun e => .updateGroupMember e.original e.current

/-- After a save the entities count as read with the values they have; no key ever changes. -/
def acceptAllChanges (ctx : DbContext) : DbContext where
  groups := ctx.groups.map fun e => { e with original := { e.current with id := e.original.id } }
  projects := ctx.projects.map fun e => { e with original := { e.current with id := e.original.id } }
  groupMembers := ctx.groupMembers.map fun e => { e with original := { e.current with id := e.original.id } }
  queued := []

end DbContext

/-! ## Results -/

structure MemberJson where
  id : Guid
  userId : Guid
  email : Text
  displayName : Option Text
  role : Text
  addedAt : DateTime
  deriving DecidableEq, Repr

/-- The results of the handlers, those of the member handlers included. -/
inductive IResult where
  | result (r : Response)
  | memberCreated (location : String) (member : MemberJson)
  | memberJson (id : Guid) (role : Text)
  deriving DecidableEq, Repr

def IResult.status : IResult → Nat
  | .result r => r.status
  | .memberCreated _ _ => 201
  | .memberJson _ _ => 200

/-- A handler. An early return is `throw`n, an exception as the `fault` it ends in. -/
abbrev Work (α : Type) := UnitOfWork Database (List Pending) DbContext Response α

namespace Work

open UnitOfWork

/-- One query of the committed rows. -/
def query {β : Type} (q : Store → β) : Work β := queries Database.store (Queries.query q)

def saveChangesAsync : Work Unit := saveChanges DbContext.detectChanges DbContext.acceptAllChanges

def queue (cs : List Change) : Work Unit := assign (·.queue cs)

/-- `ctx.Groups.FindAsync(id)`. -/
def findGroupAsync (id : Guid) : Work (Option Group) := do
  match (← memory).groups.find id with
  | some e => return some e.current
  | none => do
    let some g ← query (·.findGroup id) | return none
    assign fun ctx => ctx.setGroups (ctx.groups.attach [g])
    return some g

/-- Assigning to a tracked group. -/
def assignGroup (id : Guid) (f : Group → Group) : Work Unit :=
  assign fun ctx => ctx.setGroups (ctx.groups.modify id f)

/-- The values a tracked group has now. -/
def group (g : Group) : Work Group := return (← memory).groups.image g

/-- `ctx.Projects.FindAsync(id)` in a context that tracks no project yet. -/
def findProjectAsync (id : Guid) : Work (Option Project) := do
  let some p ← query (·.findProject id) | return none
  assign fun ctx => ctx.setProjects (ctx.projects ++ [⟨p, p⟩])
  return some p

def assignProject (id : Guid) (f : Project → Project) : Work Unit :=
  assign fun ctx => ctx.setProjects
    (ctx.projects.map fun e => if e.original.id = id then { e with current := f e.current } else e)

def project (p : Project) : Work Project := do
  let ctx ← memory
  return (ctx.projects.find? fun e => e.original.id = p.id).elim p Entry.current

def assignMember (id : Guid) (f : GroupMember → GroupMember) : Work Unit :=
  assign fun ctx => ctx.setGroupMembers
    (ctx.groupMembers.map fun e => if e.original.id = id then { e with current := f e.current } else e)

def member (m : GroupMember) : Work GroupMember := do
  let ctx ← memory
  return (ctx.groupMembers.find? fun e => e.original.id = m.id).elim m Entry.current

section Handlers
variable (chars : CharTable)

/-! ## Groups -/

section Groups
open GroupEndpoints

def createParent : Option Guid → Work (Option Group)
  | none => return none
  | some parentId => do
    let some parent ← findGroupAsync parentId
      | throw (.badRequest s!"Parent group {guidText parentId} not found.")
    if parent.depth + 1 > maxDepth then
      throw (.badRequest s!"Group nesting cannot exceed {maxDepth} levels.")
    return some parent

def createAsync (env : Ambient) (body : CreateGroupRequest) : Work IResult := do
  if isNullOrWhiteSpace chars body.name then
    throw (.badRequest "Group name is required.")
  let slug := normalizeSlug chars
    (if isNullOrWhiteSpace chars body.slug then body.name.getD [] else body.slug.getD [])
  if slug.length = 0 then
    throw (.badRequest slugRequired)
  let parent ← createParent body.parentGroupId
  let siblingExists ← query fun s => s.groups.any fun g => g.parentGroupId = body.parentGroupId && g.slug = slug
  if siblingExists then
    throw (.conflict s!"A sibling group with slug '{String.ofList slug}' already exists here.")
  let group := newGroup chars env body slug parent
  queue [.addGroup group]
  queue [.addGroupMember ⟨env.newMemberId, group.id, env.userId, "Admin".toList, env.now⟩]
  saveChangesAsync
  return .result (.created s!"/api/groups/{guidText group.id}" group.serialize)

def rewriteParent : Option Guid → Work (Option Group)
  | none => return none
  | some np => do
    let some p ← findGroupAsync np | throw (.fault s!"Parent group {guidText np} not found.")
    return some p

/-- One round of the loop below. -/
def relocateEntity (oldPath newPath : Text) (depthDelta : Int) (d : Group) : Work Unit := do
  let current ← Work.group d
  if current.fullPath.length < oldPath.length then
    throw (.fault "startIndex cannot be larger than length of string.")
  assignGroup d.id (relocate oldPath newPath depthDelta)

/-- `group` is the tracked entity as it is before the call. -/
def rewritePathsAsync (group : Group) (newParentGroupId : Option Guid) (newSlug : Text) : Work Unit := do
  let newParent ← rewriteParent newParentGroupId
  let placed := placeAt newParentGroupId newParent newSlug group
  let descendants ← query fun s => s.groups.filter (startsWith group.fullPath)
  assign fun ctx => ctx.setGroups (ctx.groups.attach descendants)
  assignGroup group.id (placeAt newParentGroupId newParent newSlug)
  for d in descendants do
    relocateEntity group.fullPath placed.fullPath (placed.depth - group.depth) d

def describe (body : UpdateGroupRequest) (stored : Group) : Work Unit := do
  if let some d := body.description then
    assignGroup stored.id fun g => { g with description := trimToNull chars (some d) }

def updateFields (body : UpdateGroupRequest) (stored : Group) : Work Unit := do
  if let some newName := body.name then
    if isNullOrWhiteSpace chars (some newName) then
      throw (.badRequest "Group name cannot be empty.")
    assignGroup stored.id fun g => { g with name := trim chars newName }
  describe chars body stored

def updateAsync (id : Guid) (body : UpdateGroupRequest) : Work IResult := do
  let some stored ← findGroupAsync id | throw .notFound
  updateFields chars body stored
  if let some slugIn := body.slug then
    let newSlug := normalizeSlug chars slugIn
    if newSlug.length = 0 then
      throw (.badRequest slugRequired)
    let group ← Work.group stored
    if newSlug ≠ group.slug then
      let collision ← query fun s => s.groups.any fun g =>
        g.parentGroupId = group.parentGroupId && g.slug = newSlug && g.id ≠ group.id
      if collision then
        throw (.conflict s!"A sibling group with slug '{String.ofList newSlug}' already exists here.")
      rewritePathsAsync group group.parentGroupId newSlug
  saveChangesAsync
  return .result (.json (← Work.group stored).serialize)

def deleteAsync (id : Guid) : Work IResult := do
  let some group ← findGroupAsync id | throw .notFound
  let hasSubgroups ← query fun s => s.groups.any fun g => g.parentGroupId = some id
  let hasProjects ← query fun s => s.projects.any fun p => p.groupId = some id
  if hasSubgroups || hasProjects then
    throw (.conflict "Group is not empty. Move or delete its subgroups and projects first.")
  let members ← query fun s => s.groupMembers.filter fun m => m.groupId = id
  queue (members.map fun m => .removeGroupMember m.id)
  queue [.removeGroup group.id]
  saveChangesAsync
  return .result .noContent

def moveTarget (id : Guid) : Option Guid → Work Int
  | none => return 0
  | some np => do
    let some newParent ← findGroupAsync np | throw (.badRequest s!"Parent group {guidText np} not found.")
    if ← queries Database.store (isDescendantAsync chars id np) then
      throw (.badRequest "Cannot move a group under one of its own descendants.")
    return newParent.depth + 1

def moveAsync (id : Guid) (body : MoveGroupRequest) : Work IResult := do
  let some group ← findGroupAsync id | throw .notFound
  if body.newParentGroupId = some id then
    throw (.badRequest "A group cannot be its own parent.")
  let newDepth ← moveTarget chars id body.newParentGroupId
  let some deepest ← query (deepest group.fullPath) | throw (.fault "Sequence contains no elements.")
  let addedDepth := newDepth - group.depth
  if deepest + addedDepth > maxDepth then
    throw (.badRequest s!"Move would exceed the maximum nesting depth of {maxDepth}.")
  let collision ← query fun s => s.groups.any fun g =>
    g.parentGroupId = body.newParentGroupId && g.slug = group.slug && g.id ≠ group.id
  if collision then
    throw (.conflict s!"A sibling group with slug '{String.ofList group.slug}' already exists at the destination.")
  rewritePathsAsync group body.newParentGroupId group.slug
  saveChangesAsync
  return .result (.json (← Work.group group).serialize)

end Groups

/-! ## Projects -/

section Projects
open ProjectEndpoints

def requireGroup : Option Guid → Work Unit
  | none => return
  | some gid => do
    let groupExists ← query fun s => s.groups.any fun g => g.id = gid
    unless groupExists do
      throw (.badRequest s!"Group {guidText gid} not found.")

def createProjectAsync (env : GroupEndpoints.Ambient) (body : CreateProjectRequest) : Work IResult := do
  if isNullOrWhiteSpace chars body.name then
    throw (.badRequest "Project name is required.")
  let slug := normalizeSlug chars
    (if isNullOrWhiteSpace chars body.slug then body.name.getD [] else body.slug.getD [])
  if slug.length = 0 then
    throw (.badRequest slugRequired)
  requireGroup body.groupId
  let collision ← query fun s => s.projects.any fun p => p.groupId = body.groupId && p.slug = slug
  if collision then
    throw (.conflict s!"A sibling project with slug '{String.ofList slug}' already exists in this namespace.")
  let project := newProject chars env body slug
  queue [.addProject project]
  queue [.addProjectMember ⟨env.newMemberId, project.id, env.userId, "Admin".toList, env.now⟩]
  saveChangesAsync
  return .result (.created s!"/api/projects/{guidText project.id}" project.serialize)

def updateName (body : UpdateProjectRequest) (stored : Project) : Work Unit := do
  if let some newName := body.name then
    if isNullOrWhiteSpace chars (some newName) then
      throw (.badRequest "Project name cannot be empty.")
    assignProject stored.id fun p => { p with name := trim chars newName }

def updateProjectAsync (id : Guid) (body : UpdateProjectRequest) : Work IResult := do
  let some stored ← findProjectAsync id | throw .notFound
  updateName chars body stored
  if let some slugIn := body.slug then
    let newSlug := normalizeSlug chars slugIn
    if newSlug.length = 0 then
      throw (.badRequest slugRequired)
    let p ← Work.project stored
    if newSlug ≠ p.slug then
      let collision ← query fun s => s.projects.any fun x =>
        x.groupId = p.groupId && x.slug = newSlug && x.id ≠ p.id
      if collision then
        throw (.conflict s!"A sibling project with slug '{String.ofList newSlug}' already exists here.")
      assignProject stored.id fun p => { p with slug := newSlug }
  saveChangesAsync
  return .result (.json (← Work.project stored).serialize)

def moveProjectAsync (id : Guid) (body : MoveProjectRequest) : Work IResult := do
  let some p ← findProjectAsync id | throw .notFound
  requireGroup body.newGroupId
  let collision ← query fun s => s.projects.any fun x =>
    x.groupId = body.newGroupId && x.slug = p.slug && x.id ≠ p.id
  if collision then
    throw (.conflict s!"A sibling project with slug '{String.ofList p.slug}' already exists at the destination.")
  assignProject p.id fun p => { p with groupId := body.newGroupId }
  saveChangesAsync
  return .result (.json (← Work.project p).serialize)

end Projects

/-! ## Members -/

def addMemberAsync (id newMemberId : Guid) (now : DateTime) (email role : Option Text) : Work IResult := do
  if isNullOrWhiteSpace chars email then
    throw (.badRequest "Email is required.")
  let some _ ← findGroupAsync id | throw .notFound
  let some user ← queries Database.users (Queries.query fun users =>
      users.find? fun u => u.email = trim chars (email.getD []))
    | throw (.badRequest s!"No user with email '{String.ofList (email.getD [])}'.")
  let existing ← query fun s => s.groupMembers.any fun m => m.groupId = id && m.userId = user.id
  if existing then
    throw (.conflict "User is already a member of this group.")
  let member : GroupMember := ⟨newMemberId, id, user.id, normalizeRole chars role, now⟩
  queue [.addGroupMember member]
  saveChangesAsync
  return .memberCreated s!"/api/groups/{guidText id}/members/{guidText member.id}"
    ⟨member.id, user.id, user.email, user.displayName, member.role, member.addedAt⟩

/-- `FirstOrDefaultAsync(m => m.Id == memberId && m.GroupId == id)`, tracked. -/
def findMemberAsync (id memberId : Guid) : Work (Option GroupMember) := do
  let some member ← query (·.findMember id memberId) | return none
  assign fun ctx => ctx.setGroupMembers (ctx.groupMembers ++ [⟨member, member⟩])
  return some member

def updateMemberAsync (id memberId : Guid) (role : Option Text) : Work IResult := do
  let some member ← findMemberAsync id memberId | throw .notFound
  assignMember member.id fun m => { m with role := normalizeRole chars role }
  saveChangesAsync
  let member ← Work.member member
  return .memberJson member.id member.role

def removeMemberAsync (id memberId : Guid) : Work IResult := do
  let some member ← findMemberAsync id memberId | throw .notFound
  queue [.removeGroupMember member.id]
  saveChangesAsync
  return .result .noContent

end Handlers

end Work

/-! ## All of them -/

/-- A request of either kind. -/
inductive AnyRequest where
  | hierarchy (r : Request)
  | member (r : MemberRequest)

section Requests
variable (chars : CharTable)

def hierarchyHandler : Request → Work IResult
  | .createGroup env body => Work.createAsync chars env body
  | .updateGroup id body => Work.updateAsync chars id body
  | .moveGroup id body => Work.moveAsync chars id body
  | .deleteGroup id => Work.deleteAsync id
  | .createProject env body => Work.createProjectAsync chars env body
  | .updateProject id body => Work.updateProjectAsync chars id body
  | .moveProject id body => Work.moveProjectAsync id body

def memberHandler : MemberRequest → Work IResult
  | .add id newMemberId now email role => Work.addMemberAsync chars id newMemberId now email role
  | .update id memberId role => Work.updateMemberAsync chars id memberId role
  | .remove id memberId => Work.removeMemberAsync id memberId

/-- A request in a context of its own, which is gone when it has its reply. -/
def AnyRequest.session (r : AnyRequest) : Session Database (List Pending) IResult :=
  UnitOfWork.session DbContext.empty .result (match r with
    | .hierarchy r => hierarchyHandler chars r
    | .member r => memberHandler chars r)

end Requests

end DuckRun.Dashboard
