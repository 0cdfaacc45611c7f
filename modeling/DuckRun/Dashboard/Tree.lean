import DuckRun.Dashboard.Members
import DuckRun.Dashboard.Writes
import DuckRun.Lib.Grouping
import DuckRun.Lib.Rose
/-!
# The tree of groups

`GetTreeAsync` reads the groups as one sorted list, groups it by parent under
the key `ParentGroupId ?? Guid.Empty`, and rebuilds the forest by a recursion
with no measure; here the recursion is cut off at depth `fuel`. While no group
has the empty id, the forest shows every group once, in its place.
-/

namespace DuckRun.Dashboard

open DuckRun.Lib DuckRun.Lib.Queries

namespace GroupEndpoints

structure NodeJson where
  id : Guid
  name : Text
  slug : Text
  description : Option Text
  fullPath : Text
  depth : Int
  projectCount : Nat
  deriving DecidableEq, Repr

/-- What `GetTreeAsync` answers; the `subgroups` of a node are its children. -/
structure TreeJson where
  roots : List (Rose NodeJson)
  rootProjectCount : Nat

def nodeJson (projectCount : Guid → Nat) (g : Group) : NodeJson :=
  ⟨g.id, g.name, g.slug, g.description, g.fullPath, g.depth, projectCount g.id⟩

/-- `Node(g)`. -/
def node (projectCountsByGroup : List (Guid × Nat)) (byParent : List (Guid × List Group)) :
    Nat → Group → Option (Rose NodeJson) :=
  Rose.grow (nodeJson fun id => (projectCountsByGroup.lookup id).getD 0) fun g => (byParent.lookup g.id).getD []

/-- `none` is a recursion deeper than `fuel`; the error is what `ToDictionary` throws. -/
def getTreeAsync (order : OrderBy Text) (fuel : Nat) : Queries Store (Option (Except String TreeJson)) := do
  let groups ← query fun s => order.sort Group.fullPath s.groups
  let counts ← query fun s =>
    toDictionary Prod.fst (fun g => g.2.length) (groupBy (fun p => p.groupId.getD 0) (s.projects.filter fun p => p.groupId ≠ none))
  let rootProjectCount ← query fun s => s.projects.countP fun p => p.groupId = none
  match counts, toDictionary (fun g => g.1.getD 0) Prod.snd (groupBy Group.parentGroupId groups) with
  | .ok projectCountsByGroup, .ok byParent =>
    let some roots := ((byParent.lookup 0).getD []).mapM (node projectCountsByGroup byParent fuel) | return none
    return some (.ok ⟨roots, rootProjectCount⟩)
  | .error e, _ => return some (.error e)
  | _, .error e => return some (.error e)

end GroupEndpoints

open GroupEndpoints

/-- All nodes of the answer. -/
def GroupEndpoints.TreeJson.nodes (tree : TreeJson) : List (Rose NodeJson) := tree.roots.flatMap Rose.nodes

/-! ## The dictionaries -/

section Dictionaries
variable {groups : List Group}

/-- No group is, or hangs under, the group with the empty id. -/
def NoEmptyId (groups : List Group) : Prop := ∀ g ∈ groups, g.id ≠ 0 ∧ g.parentGroupId ≠ some 0

/-- The sentinel key stands for the groups without a parent only. -/
theorem byParent_lookup (hne : NoEmptyId groups) :
    ∃ byParent, toDictionary (fun g => g.1.getD 0) Prod.snd (groupBy Group.parentGroupId groups) = .ok byParent ∧
      ∀ parent : Option Guid, parent ≠ some 0 →
        (byParent.lookup (parent.getD 0)).getD [] = groups.filter fun g => g.parentGroupId = parent := by
  obtain ⟨byParent, h⟩ := toDictionary_groupBy Group.parentGroupId (fun k => k.getD 0) id fun g hg g' hg' =>
    (getD_inj (hne g hg).2 (hne g' hg').2).1
  refine ⟨byParent, h, fun parent hparent => ?_⟩
  exact lookup_groupBy (e := fun k : Option Guid => k.getD 0) (v := id) h fun g hg => (getD_inj (hne g hg).2 hparent).1

theorem projectCounts_lookup (projects : List Project) :
    ∃ counts, toDictionary Prod.fst (fun g => g.2.length)
        (groupBy (fun p => p.groupId.getD 0) (projects.filter fun p => p.groupId ≠ none)) = .ok counts ∧
      ∀ id, (counts.lookup id).getD 0 = projects.countP fun p => p.groupId = some id := by
  have hkeys : ∀ p ∈ projects.filter (fun p => p.groupId ≠ none), ∀ p' ∈ projects.filter (fun p => p.groupId ≠ none),
      id (p.groupId.getD 0) = id (p'.groupId.getD 0) → p.groupId.getD 0 = p'.groupId.getD 0 := fun _ _ _ _ => id
  obtain ⟨counts, h⟩ := toDictionary_groupBy _ id List.length hkeys
  refine ⟨counts, h, fun k => ?_⟩
  have hlookup := lookup_groupBy (k := k) h fun _ _ => id
  rw [List.length_nil] at hlookup
  refine hlookup.trans ?_
  rw [← List.countP_eq_length_filter, List.countP_filter]
  refine List.countP_congr fun p _ => ?_
  cases p.groupId <;> simp

end Dictionaries

/-! ## The forest of a well-formed store -/

section Forests
variable {s : Store}

theorem Inv.levelled (hi : Inv s) {groups : List Group} (hp : groups.Perm s.groups) :
    Rose.Levelled Group.id Group.parentGroupId (fun g => g.depth.toNat) groups where
  keys := (hp.map _).nodup_iff.2 hi.ids
  top g hg hpar := by rw [((inv_wellFormed hi).topLevel g (hp.mem_iff.1 hg) hpar).1]; rfl
  below g hg k hpar := by
    obtain ⟨q, hq, rfl⟩ := hi.parents (hp.mem_iff.1 hg) hpar
    have hd := hi.depth_child (hp.mem_iff.1 hg) hq hpar
    have hq0 := hi.depth_nonneg hq
    exact ⟨q, hp.mem_iff.2 hq, rfl, by omega⟩

theorem Inv.noEmptyId (hi : Inv s) (h0 : ∀ g ∈ s.groups, g.id ≠ 0) : NoEmptyId s.groups := by
  refine fun g hg => ⟨h0 g hg, fun hp => ?_⟩
  obtain ⟨q, hq, hid⟩ := hi.parents hg hp
  exact h0 q hq hid

/-- The projects a node counts. -/
def Store.projectCount (s : Store) (id : Guid) : Nat := s.projects.countP fun p => p.groupId = some id

/-- The nodes that stand side by side under `parent` are its groups, in the order of their paths. -/
def Siblings (order : OrderBy Text) (s : Store) (parent : Option Guid) (ts : List (Rose NodeJson)) : Prop :=
  (ts.map Rose.label).Perm ((s.groups.filter fun g => g.parentGroupId = parent).map (nodeJson s.projectCount)) ∧
    (ts.map fun t => t.label.fullPath).Pairwise order.le

theorem siblings_of_labels {order : OrderBy Text} {parent : Option Guid} {ts : List (Rose NodeJson)}
    (h : ts.map Rose.label = ((order.sort Group.fullPath s.groups).filter fun g => g.parentGroupId = parent).map
      (nodeJson s.projectCount)) : Siblings order s parent ts where
  left := h ▸ ((order.perm _ _).filter _).map _
  right := by
    have hpaths : ts.map (fun t => t.label.fullPath) =
        ((order.sort Group.fullPath s.groups).filter fun g => g.parentGroupId = parent).map Group.fullPath := by
      have := congrArg (List.map NodeJson.fullPath) h
      rwa [List.map_map, List.map_map] at this
    rw [hpaths, List.pairwise_map]
    exact (order.sorted Group.fullPath s.groups).filter _

theorem getTreeAsync_shows (hi : Inv s) (h0 : ∀ g ∈ s.groups, g.id ≠ 0) (order : OrderBy Text) {fuel : Nat}
    (hfuel : maxDepth < fuel) : ∃ tree : TreeJson, (getTreeAsync order fuel).eval s = some (.ok tree) ∧
      (tree.nodes.map Rose.label).Perm (s.groups.map (nodeJson s.projectCount)) ∧
      Siblings order s none tree.roots ∧
      (∀ t ∈ tree.nodes, Siblings order s (some t.label.id) t.children) ∧
      tree.rootProjectCount = s.projects.countP fun p => p.groupId = none := by
  have hperm := order.perm Group.fullPath s.groups
  have hne : NoEmptyId (order.sort Group.fullPath s.groups) := fun g hg =>
    hi.noEmptyId h0 g (hperm.mem_iff.1 hg)
  obtain ⟨byParent, hby, hchildren⟩ := byParent_lookup hne
  obtain ⟨counts, hcounts, hcount⟩ := projectCounts_lookup s.projects
  have hlabel : (nodeJson fun id => (counts.lookup id).getD 0) = nodeJson s.projectCount := by
    rw [show (fun id => (counts.lookup id).getD 0) = s.projectCount from funext hcount]
  have hkids : ∀ g ∈ order.sort Group.fullPath s.groups, (byParent.lookup g.id).getD [] =
      Rose.childrenOf Group.id Group.parentGroupId (order.sort Group.fullPath s.groups) g :=
    fun g hg => hchildren (some g.id) fun h => (hne g hg).1 (Option.some.inj h)
  have hdepth : ∀ g ∈ order.sort Group.fullPath s.groups, g.depth.toNat < fuel := fun g hg => by
    have hmax := (hi.depths g (hperm.mem_iff.1 hg)).2
    have hnonneg := hi.depth_nonneg (hperm.mem_iff.1 hg)
    omega
  obtain ⟨roots, shown, hroots, hshown, hshow⟩ := (hi.levelled hperm).forest (f := nodeJson s.projectCount) hkids hdepth
  refine ⟨⟨roots, _⟩, ?_, ?_, siblings_of_labels hshow.labels, fun t ht => ?_, rfl⟩
  · simp only [getTreeAsync, eval_query_bind, hcounts, hby]
    have htop : (byParent.lookup 0).getD [] =
        (order.sort Group.fullPath s.groups).filter fun g => g.parentGroupId = none := hchildren none nofun
    have hnode : node counts byParent fuel =
        Rose.grow (nodeJson s.projectCount) (fun g => (byParent.lookup g.id).getD []) fuel := by
      unfold node
      rw [hlabel]
    rw [htop, hnode, hroots]
    rfl
  · exact hshow.nodes ▸ (hshown.trans hperm).map _
  · obtain ⟨g, -, hg, hc⟩ := hshow.children t ht
    rw [hg]
    exact siblings_of_labels hc

theorem getTreeAsync_mono {order : OrderBy Text} {fuel fuel' : Nat} {tree : TreeJson} (hle : fuel ≤ fuel')
    (h : (getTreeAsync order fuel).eval s = some (.ok tree)) : (getTreeAsync order fuel').eval s = some (.ok tree) := by
  simp only [getTreeAsync, eval_query_bind] at h ⊢
  split at h
  · rename_i counts byParent _ _
    split at h
    · rename_i roots hroots
      have hmore : ((byParent.lookup 0).getD []).mapM (node counts byParent fuel') = some roots :=
        Rose.mapM_mono (Rose.grow_mono hle) hroots
      rw [hmore]
      exact h
    · cases h
  · cases h
  · cases h

/-- Every project is counted at its group, or at the root. -/
theorem projects_counted (hi : Inv s) :
    (s.projects.countP fun p => p.groupId = none) + ((s.groups.map (nodeJson s.projectCount)).map NodeJson.projectCount).sum =
      s.projects.length := by
  have hgroups : ∀ p ∈ s.projects, ∀ k, p.groupId = some k → k ∈ s.groups.map Group.id := fun p hp k hk => by
    obtain ⟨g, hg, rfl⟩ := hi.projectGroups p hp k hk
    exact List.mem_map_of_mem hg
  have hsum := countP_none_add_sum Project.groupId hi.ids hgroups
  rw [List.map_map] at hsum ⊢
  exact hsum

end Forests

/-! ## Where group ids come from -/

theorem mem_applyAll_groups {s : Store} {cs : List Change} {g : Group} (hg : g ∈ (s.applyAll cs).groups) :
    (∃ h ∈ s.groups, h.id = g.id) ∨ ∃ x, Change.addGroup x ∈ cs ∧ x.id = g.id := by
  induction cs generalizing s with
  | nil => exact .inl ⟨g, hg, rfl⟩
  | cons c cs ih =>
    rcases ih hg with ⟨h, hh, hid⟩ | ⟨x, hx, hid⟩
    · cases c with
      | addGroup x =>
        rcases List.mem_append.1 hh with hh | hh
        · exact .inl ⟨h, hh, hid⟩
        · exact .inr ⟨x, List.mem_cons_self, List.mem_singleton.1 hh ▸ hid⟩
      | updateGroup o c =>
        obtain ⟨r, hr, rfl⟩ := mem_updateKey.1 hh
        refine .inl ⟨r, hr, Eq.trans ?_ hid⟩
        split <;> rfl
      | removeGroup id => exact .inl ⟨h, (List.mem_filter.1 hh).1, hid⟩
      | addGroupMember | addProject | addProjectMember | updateProject | removeGroupMember => exact .inl ⟨h, hh, hid⟩
    · exact .inr ⟨x, List.mem_cons_of_mem _ hx, hid⟩

/-- The `Guid.NewGuid()` of a request that creates a group. -/
def AnyEvent.newGroupId : AnyEvent → Option Guid
  | .hierarchy ⟨.createGroup env _, _⟩ => some env.newId
  | _ => none

section Steps
variable {chars : CharTable} {users : Text → Option Guid} {s : Store}

theorem addGroup_saved {r : Request} {cs : List Change} {resp : Response} {accepted : Bool}
    (h : (handle chars r).eval s = .save cs resp) {x : Group} (hx : Change.addGroup x ∈ cs) :
    (AnyEvent.hierarchy ⟨r, accepted⟩).newGroupId = some x.id := by
  have hw : (Outcome.save cs resp).Saves r.Writes := h ▸ (handle_yields chars r).eval s
  cases r with
  | createGroup env body =>
    obtain ⟨slug, parent, m, rfl, -⟩ := GroupEndpoints.createAsync_saves h
    obtain rfl : x = newGroup chars env body slug parent := by simpa using hx
    rfl
  | updateGroup id body =>
    obtain ⟨_, _, hc, -⟩ := hw _ hx
    cases hc
  | moveGroup id body =>
    obtain ⟨_, _, hc, -⟩ := hw _ hx
    cases hc
  | deleteGroup id =>
    obtain ⟨ms, rfl⟩ := hw
    simp at hx
  | createProject | updateProject | moveProject => cases hw _ hx

theorem mem_serveAny_groups {e : AnyEvent} {g : Group} (hg : g ∈ (serveAny chars users s e).groups) :
    (∃ h ∈ s.groups, h.id = g.id) ∨ e.newGroupId = some g.id := by
  cases e with
  | hierarchy e =>
    simp only [serveAny, serve] at hg
    cases h : (handle chars e.request).eval s with
    | answer r =>
      rw [h] at hg
      exact .inl ⟨g, hg, rfl⟩
    | save cs r =>
      rw [h] at hg
      dsimp only at hg
      cases hsave : s.saveChanges e.accepted cs with
      | none =>
        rw [hsave] at hg
        exact .inl ⟨g, hg, rfl⟩
      | some s' =>
        rw [hsave] at hg
        obtain ⟨rfl, -⟩ := Store.saveChanges_some hsave
        rcases mem_applyAll_groups hg with hold | ⟨x, hx, hid⟩
        · exact .inl hold
        · exact .inr (hid ▸ addGroup_saved h hx)
  | member r accepted =>
    -- The member endpoints leave the group table alone.
    have hgroups : ∀ s', saveMember chars users s r = some s' → s'.groups = s.groups := by
      intro s' h
      cases r with
      | add id newMemberId now email role =>
        simp only [saveMember] at h
        split at h
        · cases h
        obtain ⟨group, -, h⟩ := Option.bind_eq_some_iff.1 h
        obtain ⟨userId, -, h⟩ := Option.bind_eq_some_iff.1 h
        split at h <;> cases h
        rfl
      | update id memberId role =>
        obtain ⟨member, -, h⟩ := Option.bind_eq_some_iff.1 h
        cases h
        rfl
      | remove id memberId =>
        obtain ⟨member, -, h⟩ := Option.bind_eq_some_iff.1 h
        cases h
        rfl
    simp only [serveAny] at hg
    cases hsave : saveMember chars users s r with
    | none =>
      rw [hsave] at hg
      exact .inl ⟨g, hg, rfl⟩
    | some s' =>
      rw [hsave] at hg
      dsimp only at hg
      split at hg
      · exact .inl ⟨g, hgroups s' hsave ▸ hg, rfl⟩
      · exact .inl ⟨g, hg, rfl⟩

theorem reached_ids_ne_zero {es : List AnyEvent} (hids : ∀ e ∈ es, e.newGroupId ≠ some 0) :
    ∀ g ∈ (reached chars users es).groups, g.id ≠ 0 := by
  induction es using List.reverseRecOn with
  | nil => simp [reached, Store.empty]
  | append_singleton es e ih =>
    intro g hg
    rw [reached, List.foldl_append] at hg
    rcases mem_serveAny_groups hg with ⟨h, hh, hid⟩ | hnew
    · exact hid ▸ ih (fun x hx => hids x (List.mem_append_left _ hx)) h hh
    · rintro h0
      exact hids e (List.mem_append_right _ (List.mem_singleton.2 rfl)) (h0 ▸ hnew)

end Steps

/-! ## The tree of a reached store -/

/-- `b` under `a`, and `c`; one project in `b` and one in no group. -/
def twoTrees : List AnyEvent :=
  [.hierarchy ⟨.createGroup ⟨9, 1, 11, 0⟩ ⟨some "a".toList, none, none, none⟩, true⟩,
    .hierarchy ⟨.createGroup ⟨9, 2, 12, 0⟩ ⟨some "b".toList, none, none, some 1⟩, true⟩,
    .hierarchy ⟨.createGroup ⟨9, 3, 13, 0⟩ ⟨some "c".toList, none, none, none⟩, true⟩,
    .hierarchy ⟨.createProject ⟨9, 4, 14, 0⟩ ⟨some "p".toList, none, some 2⟩, true⟩,
    .hierarchy ⟨.createProject ⟨9, 5, 15, 0⟩ ⟨some "q".toList, none, none⟩, true⟩]

end DuckRun.Dashboard
