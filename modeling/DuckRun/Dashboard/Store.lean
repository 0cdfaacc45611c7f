import DuckRun.Dashboard.Text
import DuckRun.Lib.Rows
/-!
# The dashboard's group and project tables

The entities of the dashboard database, what one `SaveChanges` does to them,
and when the database refuses it. EF Core writes the columns of a tracked
entity that differ from the values it was read with (`merge`), by primary key.

Queries and unique indexes are assumed to compare texts ordinally, as
PostgreSQL's default collation does and SQL Server's, which ignores case, does
not. A comparison with a null id is `IS NULL`, and a unique index with a
nullable column does not compare the rows where that column is null.
-/

namespace DuckRun.Dashboard

open DuckRun.Lib

abbrev Guid := BitVec 128

/-- A `DateTime` in UTC, in ticks of 100 ns. -/
abbrev DateTime := Int

structure Group where
  id : Guid
  name : Text
  slug : Text
  description : Option Text
  parentGroupId : Option Guid
  fullPath : Text
  depth : Int
  ownerId : Guid
  createdAt : DateTime
  deriving DecidableEq, Repr

structure GroupMember where
  id : Guid
  groupId : Guid
  userId : Guid
  role : Text
  addedAt : DateTime
  deriving DecidableEq, Repr

structure Project where
  id : Guid
  name : Text
  slug : Text
  groupId : Option Guid
  ownerId : Guid
  createdAt : DateTime
  deriving DecidableEq, Repr

structure ProjectMember where
  id : Guid
  projectId : Guid
  userId : Guid
  role : Text
  addedAt : DateTime
  deriving DecidableEq, Repr

/-- The committed rows. -/
structure Store where
  groups : List Group
  groupMembers : List GroupMember
  projects : List Project
  projectMembers : List ProjectMember
  deriving DecidableEq, Repr

def Store.empty : Store := ⟨[], [], [], []⟩

/-- `ctx.Groups.FirstOrDefaultAsync(g => g.Id == id)` on the committed rows. -/
def Store.findGroup (s : Store) (id : Guid) : Option Group := s.groups.find? fun g => g.id = id

def Store.findProject (s : Store) (id : Guid) : Option Project := s.projects.find? fun p => p.id = id

/-! ## Saving changes -/

/-- What a `SaveChanges` sends for one tracked entity. An update carries the
values the entity was read with and the values it has now. -/
inductive Change where
  | addGroup (g : Group)
  | addGroupMember (m : GroupMember)
  | addProject (p : Project)
  | addProjectMember (m : ProjectMember)
  | updateGroup (original current : Group)
  | updateProject (original current : Project)
  | removeGroup (id : Guid)
  | removeGroupMember (id : Guid)
  deriving DecidableEq, Repr

/-- The column of a row after an update: the new value if it was changed. -/
def column {β : Type} [DecidableEq β] (original current stored : β) : β :=
  if original = current then stored else current

def Group.merge (original current row : Group) : Group :=
  { row with
    name := column original.name current.name row.name
    slug := column original.slug current.slug row.slug
    description := column original.description current.description row.description
    parentGroupId := column original.parentGroupId current.parentGroupId row.parentGroupId
    fullPath := column original.fullPath current.fullPath row.fullPath
    depth := column original.depth current.depth row.depth }

def Project.merge (original current row : Project) : Project :=
  { row with
    name := column original.name current.name row.name
    slug := column original.slug current.slug row.slug
    groupId := column original.groupId current.groupId row.groupId }

def Store.apply (s : Store) : Change → Store
  | .addGroup g => { s with groups := s.groups ++ [g] }
  | .addGroupMember m => { s with groupMembers := s.groupMembers ++ [m] }
  | .addProject p => { s with projects := s.projects ++ [p] }
  | .addProjectMember m => { s with projectMembers := s.projectMembers ++ [m] }
  | .updateGroup o c => { s with groups := updateKey Group.id o.id (Group.merge o c) s.groups }
  | .updateProject o c => { s with projects := updateKey Project.id o.id (Project.merge o c) s.projects }
  | .removeGroup id => { s with groups := s.groups.filter fun g => g.id ≠ id }
  | .removeGroupMember id => { s with groupMembers := s.groupMembers.filter fun m => m.id ≠ id }

def Store.applyAll (s : Store) (cs : List Change) : Store := cs.foldl Store.apply s

/-- A unique index over a nullable and a plain column: rows with a null first
column are never equal. -/
def indexKeys {α : Type} (key : α → Option Guid) (col : α → Text) (l : List α) : List (Guid × Text) :=
  l.filterMap fun r => (key r).map fun k => (k, col r)

/-- The primary keys and the unique indexes of `OnModelCreating`. -/
def Store.indexesOk (s : Store) : Bool :=
  (s.groups.map Group.id).Nodup && (s.groups.map Group.fullPath).Nodup &&
  (indexKeys Group.parentGroupId Group.slug s.groups).Nodup &&
  (s.groupMembers.map GroupMember.id).Nodup && (s.groupMembers.map fun m => (m.groupId, m.userId)).Nodup &&
  (s.projects.map Project.id).Nodup && (indexKeys Project.groupId Project.slug s.projects).Nodup &&
  (s.projectMembers.map ProjectMember.id).Nodup && (s.projectMembers.map fun m => (m.projectId, m.userId)).Nodup

/-- `SaveChangesAsync`: all changes or none. The database refuses a violated
index; `accepted` is false when it refuses for another reason. -/
def Store.saveChanges (s : Store) (accepted : Bool) (cs : List Change) : Option Store :=
  if accepted && (s.applyAll cs).indexesOk then some (s.applyAll cs) else none

/-! ## Lemmas about one change -/

@[simp] theorem column_self {β : Type} [DecidableEq β] (o c : β) : column o c o = c := by
  unfold column
  split <;> simp_all

@[simp] theorem column_same {β : Type} [DecidableEq β] (o r : β) : column o o r = r := by simp [column]

@[simp] theorem Group.merge_id (o c r : Group) : (Group.merge o c r).id = r.id := rfl

@[simp] theorem Project.merge_id (o c r : Project) : (Project.merge o c r).id = r.id := rfl

/-- A row nobody touched in between ends as the tracked entity. -/
theorem Group.merge_self {o c : Group} (hid : c.id = o.id) (howner : c.ownerId = o.ownerId)
    (hat : c.createdAt = o.createdAt) : Group.merge o c o = c := by
  cases c
  simp_all [Group.merge]

theorem Project.merge_self {o c : Project} (hid : c.id = o.id) (howner : c.ownerId = o.ownerId)
    (hat : c.createdAt = o.createdAt) : Project.merge o c o = c := by
  cases c
  simp_all [Project.merge]

theorem Store.applyAll_cons (s : Store) (c : Change) (cs : List Change) :
    s.applyAll (c :: cs) = (s.apply c).applyAll cs := rfl

@[simp] theorem Store.applyAll_nil (s : Store) : s.applyAll [] = s := rfl

theorem Store.applyAll_append (s : Store) (cs ds : List Change) :
    s.applyAll (cs ++ ds) = (s.applyAll cs).applyAll ds := List.foldl_append

theorem Store.saveChanges_some {s s' : Store} {accepted : Bool} {cs : List Change}
    (h : s.saveChanges accepted cs = some s') : s' = s.applyAll cs ∧ s'.indexesOk = true := by
  unfold Store.saveChanges at h
  split at h
  · rename_i hc
    simp only [Option.some.injEq] at h
    subst h
    exact ⟨rfl, (Bool.and_eq_true_iff.1 hc).2⟩
  · cases h

theorem Store.groups_nodup {s : Store} (h : s.indexesOk = true) : (s.groups.map Group.id).Nodup := by
  simp only [Store.indexesOk, Bool.and_eq_true, decide_eq_true_eq] at h
  exact h.1.1.1.1.1.1.1.1

theorem Store.groupMembers_nodup {s : Store} (h : s.indexesOk = true) : (s.groupMembers.map GroupMember.id).Nodup := by
  simp only [Store.indexesOk, Bool.and_eq_true, decide_eq_true_eq] at h
  exact h.1.1.1.1.1.2

theorem Store.projects_nodup {s : Store} (h : s.indexesOk = true) : (s.projects.map Project.id).Nodup := by
  simp only [Store.indexesOk, Bool.and_eq_true, decide_eq_true_eq] at h
  exact h.1.1.1.2

theorem Store.projectIndex {s : Store} (h : s.indexesOk = true) :
    (indexKeys Project.groupId Project.slug s.projects).Nodup := by
  simp only [Store.indexesOk, Bool.and_eq_true, decide_eq_true_eq] at h
  exact h.1.1.2

/-- The index tells the rows apart that have a key. -/
theorem indexKeys_nodup {α : Type} {key : α → Option Guid} {col : α → Text} {l : List α} (hn : l.Nodup) :
    (indexKeys key col l).Nodup ↔
      ∀ x ∈ l, ∀ y ∈ l, key x ≠ none → key x = key y → col x = col y → x = y := by
  unfold indexKeys List.Nodup
  rw [List.pairwise_filterMap]
  constructor
  · intro hp x hx y hy hx0 hkey hcol
    obtain ⟨k, hk⟩ := Option.ne_none_iff_exists'.1 hx0
    by_contra hne
    have hsymm : Std.Symm fun a b : α => ∀ v, (key a).map (fun k => (k, col a)) = some v →
        ∀ w, (key b).map (fun k => (k, col b)) = some w → v ≠ w := ⟨fun a b h v hv w hw => (h w hw v hv).symm⟩
    exact hp.forall hx hy hne (k, col x) (by rw [hk]; rfl) (k, col y) (by rw [← hkey, hk]; rfl) (by rw [hcol])
  · refine fun h => hn.imp_of_mem ?_
    rintro x y hx hy hne _ hkx _ hky rfl
    obtain ⟨k, hk, rfl⟩ := Option.map_eq_some_iff.1 hkx
    obtain ⟨k', hk', he⟩ := Option.map_eq_some_iff.1 hky
    obtain ⟨rfl, hcol⟩ := Prod.mk.inj he
    exact hne (h x hx y hy (by simp [hk]) (hk.trans hk'.symm) hcol.symm)

end DuckRun.Dashboard
