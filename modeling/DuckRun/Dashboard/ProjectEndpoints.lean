import DuckRun.Dashboard.GroupEndpoints
/-!
# The project endpoints

The handlers of `/api/projects` that change the project tables. They carry
their own copy of `NormalizeSlug`, the same as the groups'.
-/

namespace DuckRun.Dashboard

open DuckRun.Lib DuckRun.Lib.Queries

namespace ProjectEndpoints

structure CreateProjectRequest where
  name : Option Text
  slug : Option Text
  groupId : Option Guid

structure UpdateProjectRequest where
  name : Option Text
  slug : Option Text

structure MoveProjectRequest where
  newGroupId : Option Guid

section Handlers
variable (chars : CharTable)

/-- The update of one tracked project, if it differs from the row it was read from. -/
def detectChange (original current : Project) : List Change :=
  if original = current then [] else [.updateProject original current]

/-- The group a request names must exist; no group is the root namespace. -/
def requireGroup : Option Guid → Queries Store (Option Response)
  | none => return none
  | some gid => do
    let groupExists ← query fun s => s.groups.any fun g => g.id = gid
    return if groupExists then none else some (.badRequest s!"Group {guidText gid} not found.")

def newProject (env : GroupEndpoints.Ambient) (body : CreateProjectRequest) (slug : Text) : Project where
  id := env.newId
  name := trim chars (body.name.getD [])
  slug := slug
  groupId := body.groupId
  ownerId := env.userId
  createdAt := env.now

def createProjectAsync (env : GroupEndpoints.Ambient) (body : CreateProjectRequest) : Handler := do
  if isNullOrWhiteSpace chars body.name then
    return .answer (.badRequest "Project name is required.")
  let slug := normalizeSlug chars
    (if isNullOrWhiteSpace chars body.slug then body.name.getD [] else body.slug.getD [])
  if slug.length = 0 then
    return .answer (.badRequest slugRequired)
  match ← requireGroup body.groupId with
  | some r => return .answer r
  | none =>
    let collision ← query fun s => s.projects.any fun p => p.groupId = body.groupId && p.slug = slug
    if collision then
      return .answer
        (.conflict s!"A sibling project with slug '{String.ofList slug}' already exists in this namespace.")
    let project := newProject chars env body slug
    let member : ProjectMember := ⟨env.newMemberId, project.id, env.userId, "Admin".toList, env.now⟩
    return .save [.addProject project, .addProjectMember member]
      (.created s!"/api/projects/{guidText project.id}" project.serialize)

/-- The name check of `UpdateProjectAsync` and its assignment. -/
def updateName (body : UpdateProjectRequest) (p : Project) : Except Response Project :=
  match body.name with
  | some newName =>
    if isNullOrWhiteSpace chars (some newName) then .error (.badRequest "Project name cannot be empty.")
    else .ok { p with name := trim chars newName }
  | none => .ok p

def updateProjectAsync (id : Guid) (body : UpdateProjectRequest) : Handler := do
  let some stored ← query (·.findProject id) | return .answer .notFound
  match updateName chars body stored with
  | .error r => return .answer r
  | .ok p =>
    match body.slug with
    | none => return .save (detectChange stored p) (.json p.serialize)
    | some slugIn =>
      let newSlug := normalizeSlug chars slugIn
      if newSlug.length = 0 then
        return .answer (.badRequest slugRequired)
      if newSlug = p.slug then
        return .save (detectChange stored p) (.json p.serialize)
      let collision ← query fun s => s.projects.any fun x =>
        x.groupId = p.groupId && x.slug = newSlug && x.id ≠ p.id
      if collision then
        return .answer (.conflict s!"A sibling project with slug '{String.ofList newSlug}' already exists here.")
      let p := { p with slug := newSlug }
      return .save (detectChange stored p) (.json p.serialize)

def moveProjectAsync (id : Guid) (body : MoveProjectRequest) : Handler := do
  let some p ← query (·.findProject id) | return .answer .notFound
  match ← requireGroup body.newGroupId with
  | some r => return .answer r
  | none =>
    let collision ← query fun s => s.projects.any fun x =>
      x.groupId = body.newGroupId && x.slug = p.slug && x.id ≠ p.id
    if collision then
      return .answer
        (.conflict s!"A sibling project with slug '{String.ofList p.slug}' already exists at the destination.")
    let moved := { p with groupId := body.newGroupId }
    return .save (detectChange p moved) (.json moved.serialize)

end Handlers

end ProjectEndpoints

end DuckRun.Dashboard
