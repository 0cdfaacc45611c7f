import DuckRun.Dashboard.Members
import DuckRun.Lib.Grouping
/-!
# The page of one group

`GetAsync` and its walk up the parent pointers. The loop of the source has no
bound; here it is cut off after `fuel` rounds, and on the stores the requests
reach it needs exactly as many rounds as the group is deep.
-/

namespace DuckRun.Dashboard

open DuckRun.Lib DuckRun.Lib.Queries

namespace GroupEndpoints

structure AncestorJson where
  id : Guid
  name : Text
  slug : Text
  fullPath : Text
  deriving DecidableEq, Repr

structure SubgroupJson where
  id : Guid
  name : Text
  slug : Text
  description : Option Text
  fullPath : Text
  depth : Int
  createdAt : DateTime
  deriving DecidableEq, Repr

structure GroupProjectJson where
  id : Guid
  name : Text
  slug : Text
  createdAt : DateTime
  deriving DecidableEq, Repr

structure GroupDetails extends GroupJson where
  ancestors : List AncestorJson
  subgroups : List SubgroupJson
  projects : List GroupProjectJson
  deriving DecidableEq, Repr

def ancestorJson (anc : Group) : AncestorJson := ⟨anc.id, anc.name, anc.slug, anc.fullPath⟩

/-- The `while` loop of `GetAsync`, for at most `fuel` rounds. -/
def walkUp : Nat → Option Guid → List AncestorJson → Queries Store (Option (List AncestorJson))
  | _, none, ancestors => return some ancestors
  | 0, some _, _ => return none
  | fuel + 1, some cur, ancestors => do
    let some anc ← query (·.findGroup cur) | return some ancestors
    walkUp fuel anc.parentGroupId (ancestorJson anc :: ancestors)

/-- `none` is a walk that `fuel` rounds do not finish. -/
def getAsync (order : OrderBy Text) (fuel : Nat) (id : Guid) :
    Queries Store (Option (Except Response GroupDetails)) := do
  let some group ← query (·.findGroup id) | return some (.error .notFound)
  let subgroups ← query fun s => (order.sort Group.slug (s.groups.filter fun g => g.parentGroupId = some id)).map
    fun g => (⟨g.id, g.name, g.slug, g.description, g.fullPath, g.depth, g.createdAt⟩ : SubgroupJson)
  let projects ← query fun s => (order.sort Project.slug (s.projects.filter fun p => p.groupId = some id)).map
    fun p => (⟨p.id, p.name, p.slug, p.createdAt⟩ : GroupProjectJson)
  let some ancestors ← walkUp fuel group.parentGroupId [] | return none
  return some (.ok {
    id := group.id
    name := group.name
    slug := group.slug
    description := group.description
    parentGroupId := group.parentGroupId
    fullPath := group.fullPath
    depth := group.depth
    createdAt := group.createdAt
    ancestors, subgroups, projects })

end GroupEndpoints

open GroupEndpoints

/-- The rows above the pointer `cursor`, the root first. -/
inductive Lineage (s : Store) : Option Guid → List Group → Prop
  | nil : Lineage s none []
  | snoc {p : Group} {as : List Group} (hp : p ∈ s.groups) (h : Lineage s p.parentGroupId as) :
    Lineage s (some p.id) (as ++ [p])

section Lineages
variable {s : Store} {cursor : Option Guid} {as : List Group}

theorem Lineage.mem (h : Lineage s cursor as) : ∀ a ∈ as, a ∈ s.groups := by
  induction h with
  | nil => simp
  | snoc hp _ ih =>
    intro a ha
    rcases List.mem_append.1 ha with ha | ha
    · exact ih a ha
    · exact List.mem_singleton.1 ha ▸ hp

/-- What stands before a row of a lineage is that row's lineage. -/
theorem Lineage.take (h : Lineage s cursor as) : ∀ k (hk : k < as.length), Lineage s as[k].parentGroupId (as.take k) := by
  induction h with
  | nil => intro k hk; cases hk
  | @snoc p as hp h ih =>
    intro k hk
    by_cases hlt : k < as.length
    · rw [List.getElem_append_left hlt, List.take_append_of_le_length hlt.le]
      exact ih k hlt
    · have hlast : k = as.length := by
        rw [List.length_append, List.length_singleton] at hk
        omega
      subst hlast
      simpa using h

/-- A chain that ends at a root has a lineage. -/
theorem exists_lineage {id : Guid} (h : EndsAtRoot s.pointers id) :
    ∃ as, Lineage s (some id) as := by
  induction h with
  | root h =>
    obtain ⟨g, hfind, hp⟩ := Option.map_eq_some_iff.1 h
    obtain ⟨hg, rfl⟩ := findGroup_mem hfind
    exact ⟨[] ++ [g], .snoc hg (hp ▸ .nil)⟩
  | child h _ ih =>
    obtain ⟨g, hfind, hp⟩ := Option.map_eq_some_iff.1 h
    obtain ⟨hg, rfl⟩ := findGroup_mem hfind
    obtain ⟨as, has⟩ := ih
    exact ⟨as ++ [g], .snoc hg (hp ▸ has)⟩

theorem Inv.lineage (hi : Inv s) {g : Group} (hg : g ∈ s.groups) : ∃ as, Lineage s g.parentGroupId as := by
  cases hp : g.parentGroupId with
  | none => exact ⟨[], .nil⟩
  | some p =>
    obtain ⟨q, hq, rfl⟩ := hi.parents hg hp
    exact exists_lineage (hi.rooted q hq)

/-- A group is as deep as its lineage is long. -/
theorem Inv.depth_lineage (hi : Inv s) (h : Lineage s cursor as) :
    ∀ g ∈ s.groups, g.parentGroupId = cursor → g.depth = as.length := by
  induction h with
  | nil => exact fun g hg hp => ((inv_wellFormed hi).topLevel g hg hp).1
  | snoc hq _ ih =>
    intro g hg hp
    rw [hi.depth_child hg hq hp, ih _ hq rfl, List.length_append]
    rfl

/-- A path is spelled by the slugs of the lineage and its own. -/
theorem Inv.path_lineage (hi : Inv s) (h : Lineage s cursor as) :
    ∀ g ∈ s.groups, g.parentGroupId = cursor → g.fullPath = ['/'].intercalate ((as ++ [g]).map Group.slug) := by
  induction h with
  | nil => exact fun g hg hp => by simpa using ((inv_wellFormed hi).topLevel g hg hp).2
  | snoc hq _ ih =>
    intro g hg hp
    rw [List.map_append, List.map_singleton, intercalate_snoc '/' (by simp), ← ih _ hq rfl]
    exact hi.placed_under hg hq hp

theorem walkUp_lineage (hi : Inv s) (h : Lineage s cursor as) (fuel : Nat) (acc : List AncestorJson) :
    (walkUp fuel cursor acc).eval s = if as.length ≤ fuel then some (as.map ancestorJson ++ acc) else none := by
  induction h generalizing fuel acc with
  | nil => cases fuel <;> rfl
  | snoc hp _ ih =>
    cases fuel with
    | zero => simp [walkUp]
    | succ fuel =>
      rw [walkUp, eval_query_bind, (findGroup_iff hi.ids).2 ⟨hp, rfl⟩]
      dsimp only
      rw [ih]
      simp

/-- Every row of a lineage is as deep as it is far from the root, and its path
is as many segments of the path below. -/
theorem Inv.lineage_spells (hi : Inv s) {g : Group} (hg : g ∈ s.groups) (h : Lineage s g.parentGroupId as) {k : Nat}
    (hk : k < as.length) :
    as[k].depth = k ∧ as[k].fullPath = ['/'].intercalate ((g.fullPath.splitOn '/').take (k + 1)) := by
  have hmem : as[k] ∈ s.groups := h.mem _ (List.getElem_mem hk)
  have htake := h.take k hk
  have hsegments : g.fullPath.splitOn '/' = (as ++ [g]).map Group.slug := by
    rw [hi.path_lineage h g hg rfl]
    refine List.splitOn_intercalate '/' (fun l hl => ?_) (by simp)
    obtain ⟨x, hx, rfl⟩ := List.mem_map.1 hl
    have hx : x ∈ s.groups := by
      rcases List.mem_append.1 hx with hx | hx
      · exact h.mem x hx
      · exact List.mem_singleton.1 hx ▸ hg
    exact (hi.slugs x hx).2
  constructor
  · rw [hi.depth_lineage htake _ hmem rfl, List.length_take_of_le hk.le]
  · rw [hi.path_lineage htake _ hmem rfl, hsegments, ← List.map_take, List.take_append_of_le_length hk,
      List.take_append_getElem hk]

end Lineages

/-! ## The walk on a reached store -/

/-- `b` under `a`, and `c` under `b`. -/
def threeLevels : List AnyEvent :=
  [.hierarchy ⟨.createGroup ⟨9, 1, 11, 0⟩ ⟨some "a".toList, none, none, none⟩, true⟩,
    .hierarchy ⟨.createGroup ⟨9, 2, 12, 0⟩ ⟨some "b".toList, none, none, some 1⟩, true⟩,
    .hierarchy ⟨.createGroup ⟨9, 3, 13, 0⟩ ⟨some "c".toList, none, none, some 2⟩, true⟩]

end DuckRun.Dashboard
