import DuckRun.Dashboard.ChangeTracker
import DuckRun.Lib.Queries
import DuckRun.Lib.Paths
/-!
# The group endpoints

The handlers of `/api/groups` that change the hierarchy, query by query in the
order of the source. A handler ends in an answer, or in one `SaveChanges` and
the answer that follows it; both are `Outcome`s, so what a handler sees and
what it saves are apart, and the queries may read different committed states.
-/

namespace DuckRun.Dashboard

open DuckRun.Lib DuckRun.Lib.Queries

/-- The digits of a `Guid`, as `ToString()` prints it: 8-4-4-4-12. -/
def guidText (g : Guid) : String :=
  let digits := (List.range 32).map fun i => Nat.digitChar (g.toNat / 16 ^ (31 - i) % 16)
  let part (from_ len : Nat) := String.ofList ((digits.drop from_).take len)
  "-".intercalate [part 0 8, part 8 4, part 12 4, part 16 4, part 20 12]

/-- `Serialize(Group)`. -/
structure GroupJson where
  id : Guid
  name : Text
  slug : Text
  description : Option Text
  parentGroupId : Option Guid
  fullPath : Text
  depth : Int
  createdAt : DateTime
  deriving DecidableEq, Repr

/-- `Serialize(Project)`. -/
structure ProjectJson where
  id : Guid
  name : Text
  slug : Text
  groupId : Option Guid
  createdAt : DateTime
  deriving DecidableEq, Repr

inductive Body where
  | group (g : GroupJson)
  | project (p : ProjectJson)
  deriving DecidableEq, Repr

/-- An `IResult`; `fault` is an exception that leaves the handler. -/
inductive Response where
  | json (body : Body)
  | created (location : String) (body : Body)
  | noContent
  | notFound
  | badRequest (error : String)
  | conflict (error : String)
  | fault (exception : String)
  deriving DecidableEq, Repr

inductive Outcome where
  /-- An answer without a `SaveChanges`. -/
  | answer (r : Response)
  /-- `SaveChanges` of these changes, then the answer. -/
  | save (cs : List Change) (r : Response)
  deriving DecidableEq, Repr

abbrev Handler := Queries Store Outcome

def Group.serialize (g : Group) : Body :=
  .group ⟨g.id, g.name, g.slug, g.description, g.parentGroupId, g.fullPath, g.depth, g.createdAt⟩

def Project.serialize (p : Project) : Body := .project ⟨p.id, p.name, p.slug, p.groupId, p.createdAt⟩

def slugRequired : String := "Slug must contain at least one letter, digit, hyphen, or underscore."

namespace GroupEndpoints

def maxDepth : Int := 10

structure CreateGroupRequest where
  name : Option Text
  slug : Option Text
  description : Option Text
  parentGroupId : Option Guid

structure UpdateGroupRequest where
  name : Option Text
  slug : Option Text
  description : Option Text

structure MoveGroupRequest where
  newParentGroupId : Option Guid

/-- What a handler takes from outside the database: the signed-in user, the
`Guid.NewGuid()`s it draws and `DateTime.UtcNow`. -/
structure Ambient where
  userId : Guid
  newId : Guid
  newMemberId : Guid
  now : DateTime

section Handlers
variable (chars : CharTable)

/-- `string.IsNullOrWhiteSpace(d) ? null : d.Trim()`. -/
def trimToNull (d : Option Text) : Option Text :=
  if isNullOrWhiteSpace chars d then none else d.map (trim chars)

/-- `g.FullPath.StartsWith(path + "/")` in a query, which the database answers. -/
def startsWith (path : Text) (g : Group) : Bool := (path ++ ['/']).isPrefixOf g.fullPath

/-- The lookup and the depth check of `CreateAsync`'s parent, if one is asked for. -/
def createParent : Option Guid → Queries Store (Except Response (Option Group))
  | none => return .ok none
  | some parentId => do
    let some parent ← query (·.findGroup parentId)
      | return .error (.badRequest s!"Parent group {guidText parentId} not found.")
    if parent.depth + 1 > maxDepth then
      return .error (.badRequest s!"Group nesting cannot exceed {maxDepth} levels.")
    return .ok (some parent)

def newGroup (env : Ambient) (body : CreateGroupRequest) (slug : Text) (parent : Option Group) : Group where
  id := env.newId
  name := trim chars (body.name.getD [])
  slug := slug
  description := trimToNull chars body.description
  parentGroupId := body.parentGroupId
  fullPath := parent.elim slug fun p => p.fullPath ++ '/' :: slug
  depth := parent.elim 0 fun p => p.depth + 1
  ownerId := env.userId
  createdAt := env.now

def createAsync (env : Ambient) (body : CreateGroupRequest) : Handler := do
  if isNullOrWhiteSpace chars body.name then
    return .answer (.badRequest "Group name is required.")
  let slug := normalizeSlug chars
    (if isNullOrWhiteSpace chars body.slug then body.name.getD [] else body.slug.getD [])
  if slug.length = 0 then
    return .answer (.badRequest slugRequired)
  match ← createParent body.parentGroupId with
  | .error r => return .answer r
  | .ok parent =>
    let siblingExists ← query fun s => s.groups.any fun g => g.parentGroupId = body.parentGroupId && g.slug = slug
    if siblingExists then
      return .answer (.conflict s!"A sibling group with slug '{String.ofList slug}' already exists here.")
    let group := newGroup chars env body slug parent
    let member : GroupMember := ⟨env.newMemberId, group.id, env.userId, "Admin".toList, env.now⟩
    return .save [.addGroup group, .addGroupMember member]
      (.created s!"/api/groups/{guidText group.id}" group.serialize)

/-- `ctx.Groups.FindAsync(id)`: the tracked entity, else the committed row. -/
def findAsync (tracker : ChangeTracker) (id : Guid) : Queries Store (Option (Group × ChangeTracker)) :=
  match tracker.find id with
  | some e => return some (e.current, tracker)
  | none => do
    let some g ← query (·.findGroup id) | return none
    return some (g, tracker.attach [g])

/-- `d.FullPath = newPath + d.FullPath[oldPath.Length..]; d.Depth += depthDelta`. -/
def relocate (oldPath newPath : Text) (depthDelta : Int) (d : Group) : Group :=
  { d with fullPath := newPath ++ d.fullPath.drop oldPath.length, depth := d.depth + depthDelta }

/-- One round of `RewritePathsAsync`'s loop; a path shorter than `oldPath` throws. -/
def relocateStep (oldPath newPath : Text) (depthDelta : Int) (tracker : ChangeTracker) (d : Group) :
    Option ChangeTracker := do
  let e ← tracker.find d.id
  if e.current.fullPath.length < oldPath.length then none
  else some (tracker.modify d.id (relocate oldPath newPath depthDelta))

/-- The parent `RewritePathsAsync` looks up, and the tracker after that. -/
def rewriteParent (tracker : ChangeTracker) :
    Option Guid → Queries Store (Except String (Option Group × ChangeTracker))
  | none => return .ok (none, tracker)
  | some np => do
    let some (p, tracker) ← findAsync tracker np | return .error s!"Parent group {guidText np} not found."
    return .ok (some p, tracker)

/-- The assignments to the group itself. -/
def placeAt (newParentGroupId : Option Guid) (newParent : Option Group) (newSlug : Text) (g : Group) : Group :=
  { g with
    parentGroupId := newParentGroupId
    slug := newSlug
    fullPath := newParent.elim newSlug fun p => p.fullPath ++ '/' :: newSlug
    depth := newParent.elim 0 fun p => p.depth + 1 }

/-- `group` is the tracked entity as it is before the call. -/
def rewritePathsAsync (tracker : ChangeTracker) (group : Group) (newParentGroupId : Option Guid) (newSlug : Text) :
    Queries Store (Except String ChangeTracker) := do
  match ← rewriteParent tracker newParentGroupId with
  | .error e => return .error e
  | .ok (newParent, tracker) =>
    let placed := placeAt newParentGroupId newParent newSlug group
    let descendants ← query fun s => s.groups.filter (startsWith group.fullPath)
    let tracker := (tracker.attach descendants).modify group.id (placeAt newParentGroupId newParent newSlug)
    match descendants.foldlM (relocateStep group.fullPath placed.fullPath (placed.depth - group.depth)) tracker with
    | none => return .error "startIndex cannot be larger than length of string."
    | some tracker => return .ok tracker

/-- The name check of `UpdateAsync`, then its assignments to name and description. -/
def updateFields (body : UpdateGroupRequest) (group : Group) : Except Response Group :=
  match body.name with
  | some newName =>
    if isNullOrWhiteSpace chars (some newName) then .error (.badRequest "Group name cannot be empty.")
    else .ok (describe body { group with name := trim chars newName })
  | none => .ok (describe body group)
where
  describe (body : UpdateGroupRequest) (group : Group) : Group :=
    match body.description with
    | some d => { group with description := trimToNull chars (some d) }
    | none => group

def updateAsync (id : Guid) (body : UpdateGroupRequest) : Handler := do
  let some stored ← query (·.findGroup id) | return .answer .notFound
  match updateFields chars body stored with
  | .error r => return .answer r
  | .ok group =>
    let tracker : ChangeTracker := [⟨stored, group⟩]
    match body.slug with
    | none => return .save tracker.detectChanges (.json group.serialize)
    | some slugIn =>
      let newSlug := normalizeSlug chars slugIn
      if newSlug.length = 0 then
        return .answer (.badRequest slugRequired)
      if newSlug = group.slug then
        return .save tracker.detectChanges (.json group.serialize)
      let collision ← query fun s => s.groups.any fun g =>
        g.parentGroupId = group.parentGroupId && g.slug = newSlug && g.id ≠ group.id
      if collision then
        return .answer (.conflict s!"A sibling group with slug '{String.ofList newSlug}' already exists here.")
      match ← rewritePathsAsync tracker group group.parentGroupId newSlug with
      | .error e => return .answer (.fault e)
      | .ok tracker =>
        return .save tracker.detectChanges (.json (tracker.image stored).serialize)

def deleteAsync (id : Guid) : Handler := do
  let some group ← query (·.findGroup id) | return .answer .notFound
  let hasSubgroups ← query fun s => s.groups.any fun g => g.parentGroupId = some id
  let hasProjects ← query fun s => s.projects.any fun p => p.groupId = some id
  if hasSubgroups || hasProjects then
    return .answer (.conflict "Group is not empty. Move or delete its subgroups and projects first.")
  let members ← query fun s => s.groupMembers.filter fun m => m.groupId = id
  return .save (members.map (fun m => .removeGroupMember m.id) ++ [.removeGroup group.id]) .noContent

/-- Both groups are read again, without tracking. The last line compares in memory, as the culture does. -/
def isDescendantAsync (ancestor candidate : Guid) : Queries Store Bool := do
  let some anc ← query (·.findGroup ancestor) | return false
  let some cand ← query (·.findGroup candidate) | return false
  return cand.fullPath = anc.fullPath || chars.startsWith cand.fullPath (anc.fullPath ++ ['/'])

/-- `Where(g => g.FullPath == path || g.FullPath.StartsWith(path + "/")).Select(g => g.Depth).MaxAsync()`,
which throws on no rows. -/
def deepest (path : Text) (s : Store) : Option Int :=
  ((s.groups.filter fun g => g.fullPath = path || startsWith path g).map Group.depth).max?

/-- `MoveAsync`'s checks of the target: the new depth and the tracker, or the refusal. -/
def moveTarget (id : Guid) (tracker : ChangeTracker) :
    Option Guid → Queries Store (Except Response (Int × ChangeTracker))
  | none => return .ok (0, tracker)
  | some np => do
    let some (newParent, tracker) ← findAsync tracker np
      | return .error (.badRequest s!"Parent group {guidText np} not found.")
    if ← isDescendantAsync chars id np then
      return .error (.badRequest "Cannot move a group under one of its own descendants.")
    return .ok (newParent.depth + 1, tracker)

def moveAsync (id : Guid) (body : MoveGroupRequest) : Handler := do
  let some group ← query (·.findGroup id) | return .answer .notFound
  if body.newParentGroupId = some id then
    return .answer (.badRequest "A group cannot be its own parent.")
  match ← moveTarget chars id [⟨group, group⟩] body.newParentGroupId with
  | .error r => return .answer r
  | .ok (newDepth, tracker) =>
    let some deepest ← query (deepest group.fullPath) | return .answer (.fault "Sequence contains no elements.")
    let addedDepth := newDepth - group.depth
    if deepest + addedDepth > maxDepth then
      return .answer (.badRequest s!"Move would exceed the maximum nesting depth of {maxDepth}.")
    let collision ← query fun s => s.groups.any fun g =>
      g.parentGroupId = body.newParentGroupId && g.slug = group.slug && g.id ≠ group.id
    if collision then
      return .answer
        (.conflict s!"A sibling group with slug '{String.ofList group.slug}' already exists at the destination.")
    match ← rewritePathsAsync tracker group body.newParentGroupId group.slug with
    | .error e => return .answer (.fault e)
    | .ok tracker => return .save tracker.detectChanges (.json (tracker.image group).serialize)

end Handlers

end GroupEndpoints

end DuckRun.Dashboard
