import DuckRun.Dashboard.Requests
/-!
# What a request writes to the parent pointers

Here the queries of a request may each read a different store, so nothing is
known about how the rows it read fit together. What it saves still has a
shape, one case per request (`Request.Writes`): which rows get which parent.
-/

namespace DuckRun.Dashboard

open DuckRun.Lib DuckRun.Lib.Queries ChangeTracker

/-- Updates of group rows only; a parent column is changed only as `W` says. -/
def Repoints (W : Guid → Option Guid → Prop) (cs : List Change) : Prop :=
  ∀ c ∈ cs, ∃ original current : Group, c = .updateGroup original current ∧
    (current.parentGroupId = original.parentGroupId ∨ W original.id current.parentGroupId)

/-- Changes outside the group table. -/
def Change.elsewhere : Change → Bool
  | .addGroup _ | .updateGroup _ _ | .removeGroup _ => false
  | _ => true

/-- The shape of what a request saves. -/
def Request.Writes : Request → List Change → Prop
  | .createGroup _ body, cs => ∃ g m, cs = [.addGroup g, .addGroupMember m] ∧ g.parentGroupId = body.parentGroupId
  | .updateGroup _ _, cs => Repoints (fun _ _ => False) cs
  | .moveGroup id body, cs => Repoints (fun k p => k = id ∧ p = body.newParentGroupId) cs
  | .deleteGroup id, cs => ∃ ms : List Guid, cs = ms.map .removeGroupMember ++ [.removeGroup id]
  | .createProject _ _, cs | .updateProject _ _, cs | .moveProject _ _, cs => ∀ c ∈ cs, c.elsewhere = true

/-- What an outcome saves, if it saves. -/
def Outcome.Saves (P : List Change → Prop) : Outcome → Prop
  | .answer _ => True
  | .save cs _ => P cs

/-- The status code of a result; an exception becomes a 500. -/
def Response.status : Response → Nat
  | .json _ => 200
  | .created _ _ => 201
  | .noContent => 204
  | .badRequest _ => 400
  | .notFound => 404
  | .conflict _ => 409
  | .fault _ => 500

/-- A 4xx status. -/
def rejects (status : Nat) : Bool := 400 ≤ status && status < 500

/-- What an outcome saves, if it saves, is not followed by a rejection. -/
def Outcome.Commits (P : List Change → Prop) : Outcome → Prop
  | .answer _ => True
  | .save cs r => P cs ∧ rejects r.status = false

theorem Outcome.Saves.mono {P Q : List Change → Prop} (hPQ : ∀ cs, P cs → Q cs) {o : Outcome} (h : o.Saves P) :
    o.Saves Q := by
  cases o with
  | answer r => trivial
  | save cs r => exact hPQ cs h

theorem Outcome.Commits.mono {P Q : List Change → Prop} (hPQ : ∀ cs, P cs → Q cs) {o : Outcome}
    (h : o.Commits P) : o.Commits Q := by
  cases o with
  | answer r => trivial
  | save cs r => exact h.imp_left (hPQ cs)

theorem Outcome.Commits.saves {P Q : List Change → Prop} (hPQ : ∀ cs, P cs → Q cs) {o : Outcome}
    (h : o.Commits P) : o.Saves Q := by
  cases o with
  | answer r => trivial
  | save cs r => exact hPQ cs h.1

/-! ## Trackers -/

/-- The tracker holds row `id`, read with the parent `asRead`; only that row's
parent may have been assigned to, and then it is `target`. -/
structure Assigns (id : Guid) (asRead target : Option Guid) (t : ChangeTracker) : Prop where
  held : (find t id).isSome
  read : ∀ e ∈ t, e.original.id = id → e.original.parentGroupId = asRead
  sent : ∀ e ∈ t, e.current.parentGroupId = e.original.parentGroupId ∨
    (e.original.id = id ∧ e.current.parentGroupId = target)

section Trackers
variable {id : Guid} {asRead target : Option Guid} {t : ChangeTracker}

theorem assigns_single {stored group : Group} (hid : stored.id = id) (hp : group.parentGroupId = stored.parentGroupId) :
    Assigns id stored.parentGroupId target [⟨stored, group⟩] where
  held := by simp [find, hid]
  read := by simp
  sent := by simp [hp]

/-- The row is tracked already, so no later query reads it again. -/
theorem Assigns.attach (h : Assigns id asRead target t) (rows : List Group) :
    Assigns id asRead target (attach t rows) where
  held := by
    obtain ⟨e, he⟩ := Option.isSome_iff_exists.1 h.held
    rw [ChangeTracker.attach, find_append_left he]
    rfl
  read e he hid := by
    rcases List.mem_append.1 he with he | he
    · exact h.read e he hid
    · obtain ⟨g, hg, rfl⟩ := List.mem_map.1 he
      have hnew : find t g.id = none := by simpa using (List.mem_filter.1 hg).2
      have hgid : g.id = id := hid
      have hold := h.held
      rw [← hgid, hnew] at hold
      cases hold
  sent e he := by
    rcases List.mem_append.1 he with he | he
    · exact h.sent e he
    · obtain ⟨g, -, rfl⟩ := List.mem_map.1 he
      exact .inl rfl

theorem Assigns.modify (h : Assigns id asRead target t) {k : Guid} {f : Group → Group}
    (hf : (∀ g, (f g).parentGroupId = g.parentGroupId) ∨ (k = id ∧ ∀ g, (f g).parentGroupId = target)) :
    Assigns id asRead target (modify t k f) where
  held := by
    obtain ⟨e, he⟩ := Option.isSome_iff_exists.1 h.held
    rw [find_modify, he]
    rfl
  read e he hid := by
    obtain ⟨e', he', rfl⟩ := List.mem_map.1 he
    have horig : (if e'.original.id = k then ({ e' with current := f e'.current } : Tracked) else e').original =
        e'.original := by split <;> rfl
    rw [horig] at hid ⊢
    exact h.read e' he' hid
  sent e he := by
    obtain ⟨e', he', rfl⟩ := List.mem_map.1 he
    split
    · rename_i hk
      rcases hf with hf | ⟨rfl, hf⟩
      · simp only [hf]
        exact h.sent e' he'
      · exact .inr ⟨hk, hf _⟩
    · exact h.sent e' he'

theorem Assigns.repoints (h : Assigns id asRead target t) :
    Repoints (fun k p => k = id ∧ p = target) (detectChanges t) := by
  intro c hc
  obtain ⟨e, he, rfl⟩ := List.mem_map.1 hc
  exact ⟨_, _, rfl, h.sent e (List.mem_filter.1 he).1⟩

/-- Assigning the parent that was read changes no parent column. -/
theorem Assigns.repoints_none (h : Assigns id asRead asRead t) : Repoints (fun _ _ => False) (detectChanges t) := by
  intro c hc
  obtain ⟨e, he, rfl⟩ := List.mem_map.1 hc
  have he := (List.mem_filter.1 he).1
  refine ⟨_, _, rfl, .inl ?_⟩
  rcases h.sent e he with hs | ⟨hid, hs⟩
  · exact hs
  · exact hs.trans (h.read e he hid).symm

end Trackers

/-! ## The handlers -/

section Handlers
variable {chars : CharTable}

namespace GroupEndpoints

theorem findAsync_yields {id : Guid} {asRead target : Option Guid} {t : ChangeTracker}
    (h : Assigns id asRead target t) (k : Guid) :
    Yields (fun r => ∀ x ∈ r, Assigns id asRead target x.2) (findAsync t k) := by
  unfold findAsync
  split
  · rintro x ⟨⟩
    exact h
  · rw [yields_query_bind]
    intro s
    cases s.findGroup k with
    | none => exact fun x hx => nomatch hx
    | some g =>
      rintro x ⟨⟩
      exact h.attach [g]

/-- The loop assigns paths and depths only. -/
theorem assigns_foldlM {id : Guid} {asRead target : Option Guid} {oldPath newPath : Text} {delta : Int}
    {ds : List Group} {t t' : ChangeTracker} (h : Assigns id asRead target t)
    (hfold : ds.foldlM (relocateStep oldPath newPath delta) t = some t') : Assigns id asRead target t' := by
  induction ds generalizing t with
  | nil => cases hfold; exact h
  | cons d ds ih =>
    obtain ⟨t1, h1, hfold⟩ := Option.bind_eq_some_iff.1 hfold
    obtain ⟨e, -, h1⟩ := Option.bind_eq_some_iff.1 h1
    split at h1
    · cases h1
    · cases h1
      have h1 : Assigns id asRead target (t.modify d.id (relocate oldPath newPath delta)) :=
        h.modify (.inl fun _ => rfl)
      exact ih h1 hfold

theorem rewritePathsAsync_yields {asRead target : Option Guid} {t : ChangeTracker} {group : Group}
    (h : Assigns group.id asRead target t) (newSlug : Text) :
    Yields (fun r => ∀ t', r = .ok t' → Assigns group.id asRead target t')
      (rewritePathsAsync t group target newSlug) := by
  have hparent : Yields (fun r => ∀ p t', r = .ok (p, t') → Assigns group.id asRead target t')
      (rewriteParent t target) := by
    unfold rewriteParent
    split
    · rintro p t' ⟨⟩
      exact h
    · refine Yields.bind (findAsync_yields h _) fun r hr => ?_
      cases r with
      | none => exact fun p t' he => nomatch he
      | some x =>
        rintro p t' ⟨⟩
        exact hr x rfl
  unfold rewritePathsAsync
  refine Yields.bind hparent fun r hr => ?_
  cases r with
  | error e => exact fun t' he => nomatch he
  | ok x =>
    obtain ⟨p, t1⟩ := x
    simp only [yields_query_bind]
    intro s
    have hplaced : Assigns group.id asRead target
        (((t1.attach (s.groups.filter (startsWith group.fullPath)))).modify group.id (placeAt target p newSlug)) :=
      ((hr p t1 rfl).attach _).modify (.inr ⟨rfl, fun _ => rfl⟩)
    split
    · exact fun t' he => nomatch he
    · rename_i t2 hfold
      rintro t' ⟨⟩
      exact assigns_foldlM hplaced hfold

theorem createAsync_yields (env : Ambient) (body : CreateGroupRequest) :
    Yields (Outcome.Commits (Request.Writes (.createGroup env body))) (createAsync chars env body) := by
  unfold createAsync
  split
  · trivial
  generalize normalizeSlug chars _ = slug
  dsimp only
  split
  · trivial
  refine (yields_bind _ _ _).2 (Yields.of_forall (fun r => ?_) _)
  cases r with
  | error e => trivial
  | ok parent =>
    simp only [yields_query_bind]
    intro s
    split
    · trivial
    · exact ⟨⟨_, _, rfl, rfl⟩, rfl⟩

theorem updateAsync_yields (id : Guid) (body : UpdateGroupRequest) :
    Yields (Outcome.Commits (Request.Writes (.updateGroup id body))) (updateAsync chars id body) := by
  unfold updateAsync
  rw [yields_query_bind]
  intro s
  cases hg : s.findGroup id with
  | none => trivial
  | some stored =>
  dsimp only
  cases hu : updateFields chars body stored with
  | error e => trivial
  | ok group =>
  have hgroup := updateFields_ok hu
  have hid : group.id = stored.id := by rw [hgroup]
  have hpar : group.parentGroupId = stored.parentGroupId := by rw [hgroup]
  have ht : Assigns group.id stored.parentGroupId stored.parentGroupId [⟨stored, group⟩] :=
    assigns_single hid.symm hpar
  dsimp only
  split
  · exact ⟨ht.repoints_none, rfl⟩
  split
  · trivial
  split
  · exact ⟨ht.repoints_none, rfl⟩
  rw [yields_query_bind]
  intro s'
  split
  · trivial
  rw [hpar]
  refine Yields.bind (rewritePathsAsync_yields ht _) fun r hr => ?_
  cases r with
  | error e => trivial
  | ok t' => exact ⟨(hr t' rfl).repoints_none, rfl⟩

theorem deleteAsync_yields (id : Guid) :
    Yields (Outcome.Commits (Request.Writes (.deleteGroup id))) (deleteAsync id) := by
  unfold deleteAsync
  rw [yields_query_bind]
  intro s
  cases hg : s.findGroup id with
  | none => trivial
  | some group =>
  simp only [yields_query_bind]
  intro s1 s2
  split
  · trivial
  rw [yields_query_bind]
  intro s3
  refine ⟨⟨(s3.groupMembers.filter fun m => m.groupId = id).map GroupMember.id, ?_⟩, rfl⟩
  rw [List.map_map, (findGroup_mem hg).2]
  rfl

theorem moveAsync_yields (id : Guid) (body : MoveGroupRequest) :
    Yields (Outcome.Commits (Request.Writes (.moveGroup id body))) (moveAsync chars id body) := by
  unfold moveAsync
  rw [yields_query_bind]
  intro s
  cases hg : s.findGroup id with
  | none => trivial
  | some group =>
  have hid : group.id = id := (findGroup_mem hg).2
  have ht : Assigns group.id group.parentGroupId body.newParentGroupId [⟨group, group⟩] := assigns_single rfl rfl
  dsimp only
  split
  · trivial
  have htarget : Yields
      (fun r => ∀ n t, r = .ok (n, t) → Assigns group.id group.parentGroupId body.newParentGroupId t)
      (moveTarget chars id [⟨group, group⟩] body.newParentGroupId) := by
    generalize hb : body.newParentGroupId = target at ht
    unfold moveTarget
    split
    · rintro n t ⟨⟩
      exact ht
    · refine Yields.bind (findAsync_yields ht _) fun r hr => ?_
      cases r with
      | none => exact fun n t he => nomatch he
      | some x =>
        refine (yields_bind _ _ _).2 (Yields.of_forall (fun below => ?_) _)
        split
        · exact fun n t he => nomatch he
        · rintro n t ⟨⟩
          exact hr x rfl
  refine Yields.bind htarget fun r hr => ?_
  cases r with
  | error e => trivial
  | ok x =>
  obtain ⟨n, t⟩ := x
  rw [yields_query_bind]
  intro s1
  cases hd : deepest group.fullPath s1 with
  | none => trivial
  | some m =>
  dsimp only
  split
  · trivial
  rw [yields_query_bind]
  intro s2
  split
  · trivial
  refine Yields.bind (rewritePathsAsync_yields (hr n t rfl) _) fun r hr => ?_
  cases r with
  | error e => trivial
  | ok t' => exact ⟨hid ▸ (hr t' rfl).repoints, rfl⟩

end GroupEndpoints

namespace ProjectEndpoints

/-- A new project with its first member, or the update of one project. -/
def SavesProject (cs : List Change) : Prop :=
  (∃ p m, cs = [.addProject p, .addProjectMember m]) ∨ ∃ original current, cs = detectChange original current

theorem SavesProject.elsewhere {cs : List Change} (h : SavesProject cs) : ∀ c ∈ cs, c.elsewhere = true := by
  rcases h with ⟨p, m, rfl⟩ | ⟨p, p', rfl⟩
  · simp [Change.elsewhere]
  · unfold detectChange
    split
    · simp
    · simp [Change.elsewhere]

theorem createProjectAsync_yields (env : GroupEndpoints.Ambient) (body : CreateProjectRequest) :
    Yields (Outcome.Commits SavesProject) (createProjectAsync chars env body) := by
  unfold createProjectAsync
  split
  · trivial
  generalize normalizeSlug chars _ = slug
  dsimp only
  split
  · trivial
  refine (yields_bind _ _ _).2 (Yields.of_forall (fun r => ?_) _)
  cases r with
  | some e => trivial
  | none =>
    simp only [yields_query_bind]
    intro s
    split
    · trivial
    · exact ⟨.inl ⟨_, _, rfl⟩, rfl⟩

theorem updateProjectAsync_yields (id : Guid) (body : UpdateProjectRequest) :
    Yields (Outcome.Commits SavesProject) (updateProjectAsync chars id body) := by
  unfold updateProjectAsync
  rw [yields_query_bind]
  intro s
  cases s.findProject id with
  | none => trivial
  | some stored =>
  dsimp only
  cases updateName chars body stored with
  | error e => trivial
  | ok p =>
  dsimp only
  split
  · exact ⟨.inr ⟨_, _, rfl⟩, rfl⟩
  split
  · trivial
  split
  · exact ⟨.inr ⟨_, _, rfl⟩, rfl⟩
  rw [yields_query_bind]
  intro s'
  split
  · trivial
  · exact ⟨.inr ⟨_, _, rfl⟩, rfl⟩

theorem moveProjectAsync_yields (id : Guid) (body : MoveProjectRequest) :
    Yields (Outcome.Commits SavesProject) (moveProjectAsync id body) := by
  unfold moveProjectAsync
  rw [yields_query_bind]
  intro s
  cases s.findProject id with
  | none => trivial
  | some p =>
  refine (yields_bind _ _ _).2 (Yields.of_forall (fun r => ?_) _)
  cases r with
  | some e => trivial
  | none =>
    simp only [yields_query_bind]
    intro s'
    split
    · trivial
    · exact ⟨.inr ⟨_, _, rfl⟩, rfl⟩

end ProjectEndpoints

/-- Whatever the others commit while it reads, a request saves what `Writes` says,
and answers with a success after that. -/
theorem handle_commits (chars : CharTable) (r : Request) : Yields (Outcome.Commits r.Writes) (handle chars r) := by
  have hproject : ∀ {h : Handler}, Yields (Outcome.Commits ProjectEndpoints.SavesProject) h →
      Yields (Outcome.Commits fun cs => ∀ c ∈ cs, c.elsewhere = true) h := fun hy =>
    hy.mono fun _ ho => ho.mono fun _ => ProjectEndpoints.SavesProject.elsewhere
  cases r with
  | createGroup env body => exact GroupEndpoints.createAsync_yields env body
  | updateGroup id body => exact GroupEndpoints.updateAsync_yields id body
  | moveGroup id body => exact GroupEndpoints.moveAsync_yields id body
  | deleteGroup id => exact GroupEndpoints.deleteAsync_yields id
  | createProject env body => exact hproject (ProjectEndpoints.createProjectAsync_yields env body)
  | updateProject id body => exact hproject (ProjectEndpoints.updateProjectAsync_yields id body)
  | moveProject id body => exact hproject (ProjectEndpoints.moveProjectAsync_yields id body)

theorem handle_yields (chars : CharTable) (r : Request) : Yields (Outcome.Saves r.Writes) (handle chars r) :=
  (handle_commits chars r).mono fun _ h => h.saves fun _ hw => hw

end Handlers

/-! ## The effect on the parent pointers -/

theorem pointers_elsewhere (s : Store) {cs : List Change} (h : ∀ c ∈ cs, c.elsewhere = true) :
    (s.applyAll cs).pointers = s.pointers := by
  induction cs generalizing s with
  | nil => rfl
  | cons c cs ih =>
    rw [Store.applyAll_cons, ih _ fun x hx => h x (List.mem_cons_of_mem _ hx)]
    have hc := h c List.mem_cons_self
    cases c with
    | addGroup | updateGroup | removeGroup => cases hc
    | _ => rfl

theorem pointers_updateGroup (s : Store) (o g : Group) :
    (s.apply (.updateGroup o g)).pointers =
      if g.parentGroupId = o.parentGroupId ∨ (s.pointers o.id).isNone then s.pointers
      else Function.update s.pointers o.id (some g.parentGroupId) := by
  have hfind : ∀ k, (s.apply (.updateGroup o g)).findGroup k =
      (s.findGroup k).map fun r => if k = o.id then Group.merge o g r else r := by
    intro k
    simp only [Store.findGroup, Store.apply, updateKey]
    induction s.groups with
    | nil => rfl
    | cons r l ih =>
      rw [List.map_cons, List.find?_cons, List.find?_cons]
      have hid : (if r.id = o.id then Group.merge o g r else r).id = r.id := by split <;> rfl
      rw [hid]
      by_cases hk : r.id = k
      · simp [hk]
      · simp only [hk, decide_false]
        exact ih
  have hmerge : ∀ r : Group, (Group.merge o g r).parentGroupId =
      if g.parentGroupId = o.parentGroupId then r.parentGroupId else g.parentGroupId := by
    intro r
    simp only [Group.merge, column, eq_comm]
  funext k
  by_cases hk : k = o.id
  · subst hk
    have hrow : (s.apply (.updateGroup o g)).pointers o.id =
        (s.findGroup o.id).map fun r => (Group.merge o g r).parentGroupId := by
      rw [Store.pointers, hfind, Option.map_map]
      simp [Function.comp_def]
    rw [hrow]
    cases h : s.findGroup o.id with
    | none => simp [Store.pointers, h]
    | some r => by_cases hp : g.parentGroupId = o.parentGroupId <;> simp [Store.pointers, h, hmerge, hp]
  · have hkey : (s.apply (.updateGroup o g)).pointers k = s.pointers k := by
      simp only [Store.pointers, hfind]
      cases s.findGroup k <;> simp [hk]
    rw [hkey]
    split
    · rfl
    · rw [Function.update_of_ne hk]

theorem pointers_addGroup {s : Store} {g : Group} (hnew : ∀ h ∈ s.groups, h.id ≠ g.id) :
    s.pointers g.id = none ∧
      (s.apply (.addGroup g)).pointers = Function.update s.pointers g.id (some g.parentGroupId) := by
  have hnone : s.findGroup g.id = none := List.find?_eq_none.2 fun h hh => by simpa using hnew h hh
  refine ⟨by rw [Store.pointers, hnone]; rfl, ?_⟩
  funext k
  simp only [Store.pointers, Store.findGroup, Store.apply, List.find?_append]
  by_cases hk : k = g.id
  · subst hk
    rw [Store.findGroup] at hnone
    simp [hnone]
  · rw [Function.update_of_ne hk]
    simp [Store.pointers, Store.findGroup, Ne.symm hk]

theorem pointers_removeGroup (s : Store) (id : Guid) :
    (s.apply (.removeGroup id)).pointers = Function.update s.pointers id none := by
  funext k
  simp only [Store.pointers, Store.findGroup, Store.apply, List.find?_filter]
  by_cases hk : k = id
  · subst hk
    simp
  · rw [Function.update_of_ne hk]
    congr 2
    funext g
    by_cases hg : g.id = k <;> simp [hg, hk]

/-- Updates that only give `id` the parent `target` do so at most once. -/
theorem pointers_repoints {s : Store} {id : Guid} {target : Option Guid} {cs : List Change}
    (h : Repoints (fun k p => k = id ∧ p = target) cs) :
    (s.applyAll cs).pointers = s.pointers ∨
      (s.applyAll cs).pointers = Function.update s.pointers id (some target) := by
  induction cs generalizing s with
  | nil => exact .inl rfl
  | cons c cs ih =>
    obtain ⟨o, g, rfl, hc⟩ := h c List.mem_cons_self
    have hrest : Repoints (fun k p => k = id ∧ p = target) cs := fun x hx => h x (List.mem_cons_of_mem _ hx)
    have hstep : (s.apply (.updateGroup o g)).pointers = s.pointers ∨
        (s.apply (.updateGroup o g)).pointers = Function.update s.pointers id (some target) := by
      rw [pointers_updateGroup]
      split
      · exact .inl rfl
      · rename_i hne
        rcases hc with hsame | ⟨rfl, rfl⟩
        · exact absurd (.inl hsame) hne
        · exact .inr rfl
    rw [Store.applyAll_cons]
    rcases ih hrest with hr | hr <;> rcases hstep with hs | hs <;> rw [hr, hs]
    · exact .inl rfl
    · exact .inr rfl
    · exact .inr rfl
    · exact .inr (Function.update_idem ..)

theorem pointers_repoints_none {s : Store} {cs : List Change} (h : Repoints (fun _ _ => False) cs) :
    (s.applyAll cs).pointers = s.pointers := by
  induction cs generalizing s with
  | nil => rfl
  | cons c cs ih =>
    obtain ⟨o, g, rfl, hc⟩ := h c List.mem_cons_self
    rw [Store.applyAll_cons, ih fun x hx => h x (List.mem_cons_of_mem _ hx), pointers_updateGroup]
    rcases hc with hsame | hf
    · rw [if_pos (.inl hsame)]
    · exact hf.elim

end DuckRun.Dashboard
