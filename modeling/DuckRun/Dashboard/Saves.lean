import DuckRun.Dashboard.HierarchySteps
/-!
# What a request saves

A request that nobody disturbs reads one store and saves to that store. For
each handler: if it ends in a save, what the checks it passed say about the
store, and which changes it sends.
-/

namespace DuckRun.Dashboard

open DuckRun.Lib DuckRun.Lib.Queries ChangeTracker

namespace GroupEndpoints

section Saves
variable {chars : CharTable} {s : Store}

/-! ## Create -/

theorem createParent_ok {parentId : Option Guid} {parent : Option Group}
    (h : (createParent parentId).eval s = .ok parent) :
    parentId = parent.map Group.id ∧ ∀ q ∈ parent, q ∈ s.groups ∧ q.depth + 1 ≤ maxDepth := by
  cases parentId with
  | none =>
    cases h
    exact ⟨rfl, by simp⟩
  | some pid =>
    simp only [createParent, eval_query_bind] at h
    cases hp : s.findGroup pid with
    | none => simp [hp] at h
    | some p =>
      obtain ⟨hmem, hid⟩ := findGroup_mem hp
      simp only [hp] at h
      split at h
      · simp at h
      · rename_i hmax
        cases h
        refine ⟨congrArg some hid.symm, ?_⟩
        rintro q ⟨⟩
        exact ⟨hmem, by omega⟩

theorem createAsync_saves {env : Ambient} {body : CreateGroupRequest} {cs : List Change} {r : Response}
    (h : (createAsync chars env body).eval s = .save cs r) :
    ∃ (slug : Text) (parent : Option Group) (m : GroupMember),
      cs = [.addGroup (newGroup chars env body slug parent), .addGroupMember m] ∧ m.groupId = env.newId ∧
      slug ≠ [] ∧ '/' ∉ slug ∧ body.parentGroupId = parent.map Group.id ∧
      (∀ q ∈ parent, q ∈ s.groups ∧ q.depth + 1 ≤ maxDepth) ∧
      ∀ g ∈ s.groups, g.parentGroupId = body.parentGroupId → g.slug ≠ slug := by
  simp only [createAsync] at h
  split at h
  · simp at h
  generalize hs : normalizeSlug chars _ = slug at h
  have hslash : '/' ∉ slug := hs ▸ normalizeSlug_no_slash chars _
  split at h
  · simp at h
  rename_i hlen
  rw [eval_bind] at h
  cases hp : (createParent body.parentGroupId).eval s with
  | error e => simp [hp] at h
  | ok parent =>
    obtain ⟨hpid, hpm⟩ := createParent_ok hp
    simp only [hp, eval_query_bind, eval_ite, eval_pure] at h
    split at h
    · simp at h
    rename_i hsib
    simp only [Outcome.save.injEq] at h
    refine ⟨slug, parent, _, h.1.symm, rfl, ?_, hslash, hpid, hpm, ?_⟩
    · rintro rfl
      exact hlen rfl
    · intro g hg hpar hsl
      simp only [List.any_eq_true, not_exists, not_and, Bool.and_eq_true, decide_eq_true_eq] at hsib
      exact hsib g hg hpar hsl

/-! ## The tracker of one request -/

/-- The request has one entity it assigns to, read as `stored` and now `group`;
every other entity is as it was read. -/
structure Holds (s : Store) (stored group : Group) (t : ChangeTracker) : Prop where
  tracks : Tracks s t
  entity : find t stored.id = some ⟨stored, group⟩
  others : ∀ e ∈ t, e.original.id ≠ stored.id → e.current = e.original

theorem holds_single {stored group : Group} (hs : stored ∈ s.groups)
    (hid : group.id = stored.id) (howner : group.ownerId = stored.ownerId) (hat : group.createdAt = stored.createdAt) :
    Holds s stored group [⟨stored, group⟩] where
  tracks := ⟨by simp, by simpa using hs, by simpa using ⟨hid, howner, hat⟩⟩
  entity := by simp [find]
  others := by simp

theorem Holds.image {stored group : Group} {t : ChangeTracker} (h : Holds s stored group t)
    (hn : (s.groups.map Group.id).Nodup) {r : Group} (hr : r ∈ s.groups) :
    image t r = if r.id = stored.id then group else r := by
  unfold ChangeTracker.image
  split
  · rename_i hid
    rw [hid, h.entity]
    rfl
  · rename_i hid
    cases he : find t r.id with
    | none => rfl
    | some e =>
      obtain ⟨hmem, hkey⟩ := find_eq_some he
      have hread : e.original = r := List.inj_on_of_nodup_map hn (h.tracks.read e hmem) hr hkey
      exact (h.others e hmem (hkey ▸ hid)).trans hread

theorem Holds.attach {stored group : Group} {t : ChangeTracker} (h : Holds s stored group t) {rows : List Group}
    (hrows : ∀ g ∈ rows, g ∈ s.groups) (hn : (rows.map Group.id).Nodup) : Holds s stored group (attach t rows) where
  tracks := tracks_attach h.tracks hrows hn
  entity := find_append_left h.entity
  others e he hne := by
    rcases List.mem_append.1 he with he | he
    · exact h.others e he hne
    · obtain ⟨g, -, rfl⟩ := List.mem_map.1 he
      rfl

theorem findAsync_some {stored group : Group} {t t' : ChangeTracker} (ht : Holds s stored group t) {id : Guid}
    (hne : id ≠ stored.id) {p : Group} (h : (findAsync t id).eval s = some (p, t')) :
    p ∈ s.groups ∧ p.id = id ∧ Holds s stored group t' := by
  unfold findAsync at h
  cases hf : find t id with
  | some e =>
    obtain ⟨hmem, hkey⟩ := find_eq_some hf
    have hcur : e.current = e.original := ht.others e hmem (hkey ▸ hne)
    simp only [hf, eval_pure, Option.some.injEq, Prod.mk.injEq] at h
    obtain ⟨rfl, rfl⟩ := h
    rw [hcur]
    exact ⟨ht.tracks.read e hmem, hkey, ht⟩
  | none =>
    simp only [hf, eval_query_bind] at h
    cases hg : s.findGroup id with
    | none => simp [hg] at h
    | some g =>
      obtain ⟨hmem, hid⟩ := findGroup_mem hg
      simp only [hg, eval_pure, Option.some.injEq, Prod.mk.injEq] at h
      obtain ⟨rfl, rfl⟩ := h
      exact ⟨hmem, hid, ht.attach (by simpa using hmem) (by simp)⟩

/-! ## Rewriting the paths -/

/-- The loop relocates the rows it runs over, each once. -/
theorem foldlM_relocateStep {oldPath newPath : Text} {delta : Int} {ds : List Group} {t t' : ChangeTracker}
    (hn : (ds.map Group.id).Nodup) (ht : Tracks s t)
    (h : ds.foldlM (relocateStep oldPath newPath delta) t = some t') :
    Tracks s t' ∧ ∀ r, image t' r =
      if r.id ∈ ds.map Group.id then relocate oldPath newPath delta (image t r) else image t r := by
  induction ds generalizing t with
  | nil =>
    cases h
    exact ⟨ht, by simp⟩
  | cons d ds ih =>
    rw [List.map_cons, List.nodup_cons] at hn
    obtain ⟨t1, h1, h⟩ := Option.bind_eq_some_iff.1 h
    obtain ⟨e, he, h1⟩ := Option.bind_eq_some_iff.1 h1
    split at h1
    · cases h1
    obtain rfl : t.modify d.id (relocate oldPath newPath delta) = t1 := Option.some.inj h1
    have ht1 : Tracks s (t.modify d.id (relocate oldPath newPath delta)) := tracks_modify ht fun _ => ⟨rfl, rfl, rfl⟩
    obtain ⟨ht', himg⟩ := ih hn.2 ht1 h
    refine ⟨ht', fun r => ?_⟩
    rw [himg, image_modify _ (by rw [he]; rfl)]
    by_cases hr : r.id = d.id
    · simp [hr, hn.1]
    · simp [hr]

/-- `RewritePathsAsync` saves what `Store.relocate` says. -/
theorem rewritePathsAsync_ok (hn : (s.groups.map Group.id).Nodup) {stored group : Group} {t t' : ChangeTracker}
    (ht : Holds s stored group t) (hpath : group.fullPath = stored.fullPath) (hdepth : group.depth = stored.depth)
    (hmem : stored ∈ s.groups) (hid : group.id = stored.id) {np : Option Guid} (hnp : np ≠ some stored.id) {newSlug : Text}
    (h : (rewritePathsAsync t group np newSlug).eval s = .ok t') :
    ∃ newParent : Option Group, np = newParent.map Group.id ∧ (∀ q ∈ newParent, q ∈ s.groups) ∧
      s.applyAll t'.detectChanges = s.relocate stored (placeAt np newParent newSlug group) := by
  unfold rewritePathsAsync at h
  rw [eval_bind] at h
  cases hp : (rewriteParent t np).eval s with
  | error e => simp [hp] at h
  | ok res =>
    obtain ⟨newParent, t1⟩ := res
    have hparent : np = newParent.map Group.id ∧ (∀ q ∈ newParent, q ∈ s.groups) ∧ Holds s stored group t1 := by
      cases np with
      | none =>
        cases hp
        exact ⟨rfl, by simp, ht⟩
      | some pid =>
        simp only [rewriteParent, eval_bind] at hp
        cases hf : (findAsync t pid).eval s with
        | none => simp [hf] at hp
        | some res =>
          obtain ⟨p, t2⟩ := res
          simp only [hf, eval_pure, Except.ok.injEq, Prod.mk.injEq] at hp
          obtain ⟨rfl, rfl⟩ := hp
          obtain ⟨hpm, hpid, ht2⟩ := findAsync_some ht (fun he => hnp (congrArg some he)) hf
          exact ⟨congrArg some hpid.symm, by simpa using hpm, ht2⟩
    obtain ⟨hpid, hpm, ht1⟩ := hparent
    refine ⟨newParent, hpid, hpm, ?_⟩
    simp only [hp, eval_query_bind] at h
    generalize hds : s.groups.filter (startsWith group.fullPath) = ds at h
    have hdn : (ds.map Group.id).Nodup := hds ▸ nodup_map_filter _ hn
    have ht2 := ht1.attach (fun g hg => (List.mem_filter.1 (hds ▸ hg)).1) hdn
    split at h
    · cases h
    rename_i t3 hfold
    cases h
    have ht3 : Tracks s ((t1.attach ds).modify group.id (placeAt np newParent newSlug)) :=
      tracks_modify ht2.tracks fun _ => ⟨rfl, rfl, rfl⟩
    obtain ⟨htracks, himg⟩ := foldlM_relocateStep hdn ht3 hfold
    rw [applyAll_detectChanges hn htracks]
    unfold Store.relocate
    congr 1
    refine List.map_congr_left fun r hr => ?_
    have hdesc : r.id ∈ ds.map Group.id ↔ startsWith stored.fullPath r = true := by
      rw [← hds, hpath, List.mem_map]
      constructor
      · rintro ⟨d, hd, hdid⟩
        obtain ⟨hd, hst⟩ := List.mem_filter.1 hd
        rwa [← List.inj_on_of_nodup_map hn hd hr hdid]
      · exact fun hst => ⟨r, List.mem_filter.2 ⟨hr, hst⟩, rfl⟩
    rw [himg, image_modify _ (by rw [hid, ht2.entity]; rfl), ht2.image hn hr, hid]
    unfold relocated
    by_cases hrs : r.id = stored.id
    · -- The group itself does not start with its own path and a slash.
      obtain rfl : r = stored := List.inj_on_of_nodup_map hn hr hmem hrs
      have hself : ¬ (r.id ∈ ds.map Group.id) := by rw [hdesc, startsWith_self]; simp
      simp [hself]
    · simp only [hdesc, hrs, ↓reduceIte, hpath, hdepth]

/-! ## Update -/

/-- The name and the description, where supplied, are all that is assigned before the slug. -/
theorem updateFields_ok {body : UpdateGroupRequest} {stored group : Group}
    (h : updateFields chars body stored = .ok group) :
    group = { stored with
      name := body.name.elim stored.name (trim chars)
      description := body.description.elim stored.description fun d => trimToNull chars (some d) } := by
  have hd : ∀ g : Group, updateFields.describe chars body g =
      { g with description := body.description.elim g.description fun d => trimToNull chars (some d) } := by
    intro g
    unfold updateFields.describe
    cases body.description with
    | none => rfl
    | some d => rfl
  unfold updateFields at h
  cases hn : body.name with
  | none =>
    rw [hn] at h
    cases h
    exact hd stored
  | some newName =>
    simp only [hn] at h
    split at h
    · cases h
    · cases h
      exact hd { stored with name := trim chars newName }

/-- An update saves new texts of one row, or moves its subtree to a path with
a new last segment. -/
theorem updateAsync_saves (hi : Inv s) {id : Guid} {body : UpdateGroupRequest} {cs : List Change} {r : Response}
    (h : (updateAsync chars id body).eval s = .save cs r) :
    ∃ stored ∈ s.groups, stored.id = id ∧ ∃ group, updateFields chars body stored = .ok group ∧
      (((∀ slugIn, body.slug = some slugIn → normalizeSlug chars slugIn = stored.slug) ∧
        s.applyAll cs = { s with groups := s.groups.map fun r => if r.id = id then group else r }) ∨
      ∃ (parent : Option Group) (slugIn : Text), body.slug = some slugIn ∧ normalizeSlug chars slugIn ≠ [] ∧
        normalizeSlug chars slugIn ≠ stored.slug ∧ stored.parentGroupId = parent.map Group.id ∧
        (∀ q ∈ parent, q ∈ s.groups) ∧
        (∀ g ∈ s.groups, g.parentGroupId = stored.parentGroupId → g.slug = normalizeSlug chars slugIn → g.id = id) ∧
        s.applyAll cs = s.relocate stored (placeAt stored.parentGroupId parent (normalizeSlug chars slugIn) group)) := by
  simp only [updateAsync, eval_query_bind] at h
  cases hg : s.findGroup id with
  | none => simp [hg] at h
  | some stored =>
  obtain ⟨hmem, hid⟩ := findGroup_mem hg
  refine ⟨stored, hmem, hid, ?_⟩
  simp only [hg] at h
  cases hu : updateFields chars body stored with
  | error e => simp [hu] at h
  | ok group =>
  have hgroup := updateFields_ok hu
  refine ⟨group, rfl, ?_⟩
  simp only [hu] at h
  have ht : Holds s stored group [⟨stored, group⟩] := by
    apply holds_single hmem <;> rw [hgroup]
  have hplain : s.applyAll (detectChanges [⟨stored, group⟩]) =
      { s with groups := s.groups.map fun r => if r.id = id then group else r } := by
    rw [applyAll_detectChanges hi.ids ht.tracks]
    congr 1
    refine List.map_congr_left fun r hr => ?_
    rw [ht.image hi.ids hr, hid]
  have hslug : group.slug = stored.slug := by rw [hgroup]
  cases hb : body.slug with
  | none =>
    simp only [hb, eval_pure, Outcome.save.injEq] at h
    rw [← h.1]
    exact .inl ⟨by simp, hplain⟩
  | some slugIn =>
  simp only [hb] at h
  split at h
  · simp at h
  rename_i hlen
  split at h
  · rename_i hsame
    simp only [eval_pure, Outcome.save.injEq] at h
    rw [← h.1]
    refine .inl ⟨fun _ hx => ?_, hplain⟩
    cases hx
    exact hsame.trans hslug
  rename_i hnew
  simp only [eval_query_bind, eval_ite] at h
  split at h
  · simp at h
  rename_i hsib
  rw [eval_bind] at h
  cases hrw : (rewritePathsAsync [⟨stored, group⟩] group group.parentGroupId (normalizeSlug chars slugIn)).eval s with
  | error e => simp [hrw] at h
  | ok t =>
  simp only [hrw, eval_pure, Outcome.save.injEq] at h
  have hpar : group.parentGroupId = stored.parentGroupId := by rw [hgroup]
  have hself : group.parentGroupId ≠ some stored.id := by
    intro he
    have hd := hi.depth_child hmem hmem (hpar ▸ he)
    omega
  obtain ⟨parent, hpid, hpm, hsave⟩ := rewritePathsAsync_ok hi.ids ht (by rw [hgroup]) (by rw [hgroup]) hmem
    (by rw [hgroup]) hself hrw
  refine .inr ⟨parent, slugIn, rfl, ?_, hslug ▸ hnew, hpar ▸ hpid, hpm, ?_, ?_⟩
  · intro hempty
    exact hlen (congrArg List.length hempty)
  · intro g hgm hgp hgs
    have hgid : group.id = id := by rw [hgroup]; exact hid
    simp only [List.any_eq_true, not_exists, not_and, Bool.and_eq_true, decide_eq_true_eq, hpar] at hsib
    exact by_contra fun hne => hsib g hgm ⟨hgp, hgs⟩ (hgid ▸ hne)
  · rw [← h.1, hsave, hpar]

/-! ## Delete -/

theorem deleteAsync_saves {id : Guid} {cs : List Change} {r : Response}
    (h : (deleteAsync id).eval s = .save cs r) :
    (∀ g ∈ s.groups, g.parentGroupId ≠ some id) ∧ (∀ p ∈ s.projects, p.groupId ≠ some id) ∧
      cs = (s.groupMembers.filter fun m => m.groupId = id).map (fun m => .removeGroupMember m.id) ++ [.removeGroup id] := by
  simp only [deleteAsync, eval_query_bind] at h
  cases hg : s.findGroup id with
  | none => simp [hg] at h
  | some g =>
  simp only [hg, eval_query_bind, eval_ite] at h
  split at h
  · simp at h
  rename_i hempty
  simp only [eval_pure, Outcome.save.injEq] at h
  simp only [Bool.or_eq_true, List.any_eq_true, decide_eq_true_eq, not_or, not_exists, not_and] at hempty
  refine ⟨hempty.1, hempty.2, ?_⟩
  rw [← h.1, (findGroup_mem hg).2]

/-! ## Move -/

theorem isDescendantAsync_eval {anc cand : Guid} {a c : Group} (ha : s.findGroup anc = some a)
    (hc : s.findGroup cand = some c) :
    (isDescendantAsync chars anc cand).eval s =
      (decide (c.fullPath = a.fullPath) || chars.startsWith c.fullPath (a.fullPath ++ ['/'])) := by
  simp only [isDescendantAsync, eval_query_bind, ha, hc, eval_pure]

/-- A culture that recognises paths misses no descendant. -/
theorem isDescendantAsync_false (hculture : chars.RecognisesPaths) {anc cand : Guid} {a c : Group}
    (ha : s.findGroup anc = some a) (hc : s.findGroup cand = some c)
    (h : (isDescendantAsync chars anc cand).eval s = false) : ¬ Under '/' a.fullPath c.fullPath := by
  rw [isDescendantAsync_eval ha hc, Bool.or_eq_false_iff, decide_eq_false_iff_not] at h
  rintro (he | ⟨rest, hrest⟩)
  · exact h.1 he
  · have hseen := hculture a.fullPath rest
    rw [List.append_cons, hrest, h.2] at hseen
    cases hseen

/-- `deepest` bounds the depth of every row under the path. -/
theorem le_deepest {path : Text} {m : Int} (h : deepest path s = some m) {d : Group} (hd : d ∈ s.groups)
    (hu : Under '/' path d.fullPath) : d.depth ≤ m := by
  have hmem : d.depth ∈ (s.groups.filter fun g => g.fullPath = path || startsWith path g).map Group.depth := by
    refine List.mem_map.2 ⟨d, List.mem_filter.2 ⟨hd, ?_⟩, rfl⟩
    rw [Bool.or_eq_true, decide_eq_true_eq, startsWith_iff]
    exact hu
  exact (List.max?_eq_some_iff.1 h).2 _ hmem

/-- A move saves a subtree under a target that its descent check let pass. -/
theorem moveAsync_saves (hi : Inv s) {id : Guid} {body : MoveGroupRequest} {cs : List Change} {r : Response}
    (h : (moveAsync chars id body).eval s = .save cs r) :
    ∃ group ∈ s.groups, group.id = id ∧ ∃ parent : Option Group, body.newParentGroupId = parent.map Group.id ∧
      (∀ q ∈ parent, q ∈ s.groups ∧ (isDescendantAsync chars id q.id).eval s = false) ∧
      (∀ g ∈ s.groups, g.parentGroupId = body.newParentGroupId → g.slug = group.slug → g.id = id) ∧
      (∀ d ∈ s.groups, Under '/' group.fullPath d.fullPath →
        d.depth + (parent.elim 0 (fun q => q.depth + 1) - group.depth) ≤ maxDepth) ∧
      s.applyAll cs = s.relocate group (placeAt body.newParentGroupId parent group.slug group) := by
  simp only [moveAsync, eval_query_bind] at h
  cases hg : s.findGroup id with
  | none => simp [hg] at h
  | some group =>
  obtain ⟨hmem, hid⟩ := findGroup_mem hg
  refine ⟨group, hmem, hid, ?_⟩
  simp only [hg] at h
  split at h
  · simp at h
  rename_i hnp
  rw [eval_bind] at h
  have ht : Holds s group group [⟨group, group⟩] := holds_single hmem rfl rfl rfl
  cases hm : (moveTarget chars id [⟨group, group⟩] body.newParentGroupId).eval s with
  | error e => simp [hm] at h
  | ok res =>
  obtain ⟨newDepth, t⟩ := res
  have htarget : ∃ parent : Option Group, body.newParentGroupId = parent.map Group.id ∧
      newDepth = parent.elim 0 (fun q => q.depth + 1) ∧
      (∀ q ∈ parent, q ∈ s.groups ∧ (isDescendantAsync chars id q.id).eval s = false) ∧ Holds s group group t := by
    cases hb : body.newParentGroupId with
    | none =>
      rw [hb] at hm
      cases hm
      exact ⟨none, rfl, rfl, by simp, ht⟩
    | some pid =>
      simp only [hb, moveTarget, eval_bind] at hm
      have hne : pid ≠ group.id := fun he => hnp (by rw [hb, he, hid])
      cases hf : (findAsync [⟨group, group⟩] pid).eval s with
      | none => simp [hf] at hm
      | some res =>
        obtain ⟨p, t1⟩ := res
        obtain ⟨hpm, hpid, ht1⟩ := findAsync_some ht hne hf
        simp only [hf, eval_bind] at hm
        cases hdesc : (isDescendantAsync chars id pid).eval s with
        | true => simp [hdesc] at hm
        | false =>
          simp only [hdesc, Bool.false_eq_true, if_false, eval_pure, Except.ok.injEq, Prod.mk.injEq] at hm
          obtain ⟨rfl, rfl⟩ := hm
          refine ⟨some p, congrArg some hpid.symm, rfl, ?_, ht1⟩
          rintro q ⟨⟩
          exact ⟨hpm, hpid ▸ hdesc⟩
  obtain ⟨parent, hpid, hdepth, hpm, ht1⟩ := htarget
  simp only [hm, eval_query_bind] at h
  cases hdeep : deepest group.fullPath s with
  | none => simp [hdeep] at h
  | some m =>
  simp only [hdeep] at h
  split at h
  · simp at h
  rename_i hmax
  simp only [eval_query_bind, eval_ite] at h
  split at h
  · simp at h
  rename_i hsib
  rw [eval_bind] at h
  cases hrw : (rewritePathsAsync t group body.newParentGroupId group.slug).eval s with
  | error e => simp [hrw] at h
  | ok t' =>
  simp only [hrw, eval_pure, Outcome.save.injEq] at h
  obtain ⟨parent', hpid', hpm', hsave⟩ := rewritePathsAsync_ok hi.ids ht1 rfl rfl hmem rfl (hid ▸ hnp) hrw
  have hsame : parent' = parent :=
    hi.parent_unique hpm' (fun q hq => (hpm q hq).1) (hpid'.symm.trans hpid)
  refine ⟨parent, hpid, hpm, ?_, ?_, ?_⟩
  · intro g hgm hgp hgs
    simp only [List.any_eq_true, not_exists, not_and, Bool.and_eq_true, decide_eq_true_eq] at hsib
    exact by_contra fun hne => hsib g hgm ⟨hgp, hgs⟩ (hid ▸ hne)
  · intro d hd hu
    have := le_deepest hdeep hd hu
    rw [← hdepth]
    omega
  · rw [← h.1, hsave, hsame]

end Saves

end GroupEndpoints

namespace ProjectEndpoints

section Saves
variable {chars : CharTable} {s : Store}

/-! ## Projects -/

theorem requireGroup_none {gid : Option Guid} (h : (requireGroup gid).eval s = none) :
    ∀ k, gid = some k → ∃ g ∈ s.groups, g.id = k := by
  rintro k rfl
  simp only [requireGroup, eval_query_bind, eval_pure, ite_eq_left_iff, reduceCtorEq, imp_false, not_not,
    List.any_eq_true, decide_eq_true_eq] at h
  exact h

theorem createProjectAsync_saves {env : GroupEndpoints.Ambient} {body : CreateProjectRequest} {cs : List Change}
    {r : Response} (h : (createProjectAsync chars env body).eval s = .save cs r) :
    ∃ (slug : Text) (m : ProjectMember),
      cs = [.addProject (newProject chars env body slug), .addProjectMember m] ∧
      (∀ k, body.groupId = some k → ∃ g ∈ s.groups, g.id = k) ∧
      ∀ q ∈ s.projects, q.groupId = body.groupId → q.slug ≠ slug := by
  simp only [createProjectAsync] at h
  split at h
  · simp at h
  generalize hs : normalizeSlug chars _ = slug at h
  split at h
  · simp at h
  rw [eval_bind] at h
  cases hg : (requireGroup body.groupId).eval s with
  | some e => simp [hg] at h
  | none =>
  simp only [hg, eval_query_bind, eval_ite, eval_pure] at h
  split at h
  · simp at h
  rename_i hsib
  simp only [Outcome.save.injEq] at h
  refine ⟨slug, _, h.1.symm, requireGroup_none hg, ?_⟩
  intro q hq hqg hqs
  simp only [List.any_eq_true, not_exists, not_and, Bool.and_eq_true, decide_eq_true_eq] at hsib
  exact hsib q hq hqg hqs

/-- A project row turns from `p` into `p'`, and nothing else is sent. -/
structure Retitles (s : Store) (id : Guid) (cs : List Change) (p p' : Project) : Prop where
  mem : p ∈ s.projects
  id_eq : p.id = id
  fixed : p'.id = p.id ∧ p'.ownerId = p.ownerId ∧ p'.createdAt = p.createdAt
  changes : cs = detectChange p p'

theorem updateName_ok {body : UpdateProjectRequest} {stored p : Project} (h : updateName chars body stored = .ok p) :
    ∃ n, p = { stored with name := n } := by
  unfold updateName at h
  split at h
  · split at h
    · cases h
    · cases h
      exact ⟨_, rfl⟩
  · cases h
    exact ⟨stored.name, rfl⟩

theorem updateProjectAsync_saves {id : Guid} {body : UpdateProjectRequest} {cs : List Change} {r : Response}
    (h : (updateProjectAsync chars id body).eval s = .save cs r) :
    ∃ p p', Retitles s id cs p p' ∧ p'.groupId = p.groupId ∧
      (p'.slug = p.slug ∨ ∀ q ∈ s.projects, q.groupId = p.groupId → q.slug = p'.slug → q.id = id) := by
  simp only [updateProjectAsync, eval_query_bind] at h
  cases hg : s.findProject id with
  | none => simp [hg] at h
  | some stored =>
  obtain ⟨hmem, hid⟩ := findProject_mem hg
  simp only [hg] at h
  cases hu : updateName chars body stored with
  | error e => simp [hu] at h
  | ok p =>
  obtain ⟨n, hp⟩ := updateName_ok hu
  simp only [hu] at h
  split at h
  · simp only [eval_pure, Outcome.save.injEq] at h
    exact ⟨stored, p, ⟨hmem, hid, by rw [hp]; exact ⟨rfl, rfl, rfl⟩, h.1.symm⟩, by rw [hp], .inl (by rw [hp])⟩
  generalize hs : normalizeSlug chars _ = slug at h
  split at h
  · simp at h
  split at h
  · simp only [eval_pure, Outcome.save.injEq] at h
    exact ⟨stored, p, ⟨hmem, hid, by rw [hp]; exact ⟨rfl, rfl, rfl⟩, h.1.symm⟩, by rw [hp], .inl (by rw [hp])⟩
  simp only [eval_query_bind, eval_ite, eval_pure] at h
  split at h
  · simp at h
  rename_i hsib
  simp only [Outcome.save.injEq] at h
  have hpg : p.groupId = stored.groupId := by rw [hp]
  have hpid : p.id = id := by rw [hp]; exact hid
  refine ⟨stored, { p with slug := slug }, ⟨hmem, hid, by rw [hp]; exact ⟨rfl, rfl, rfl⟩, h.1.symm⟩, hpg, .inr ?_⟩
  intro q hq hqg hqs
  simp only [List.any_eq_true, not_exists, not_and, Bool.and_eq_true, decide_eq_true_eq, hpg, hpid] at hsib
  exact by_contra fun hne => hsib q hq ⟨hqg, hqs⟩ hne

theorem moveProjectAsync_saves {id : Guid} {body : MoveProjectRequest} {cs : List Change} {r : Response}
    (h : (moveProjectAsync id body).eval s = .save cs r) :
    ∃ p p', Retitles s id cs p p' ∧ (∀ k, p'.groupId = some k → ∃ g ∈ s.groups, g.id = k) ∧
      ∀ q ∈ s.projects, q.groupId = p'.groupId → q.slug = p'.slug → q.id = id := by
  simp only [moveProjectAsync, eval_query_bind] at h
  cases hg : s.findProject id with
  | none => simp [hg] at h
  | some p =>
  obtain ⟨hmem, hid⟩ := findProject_mem hg
  simp only [hg] at h
  rw [eval_bind] at h
  cases hr : (requireGroup body.newGroupId).eval s with
  | some e => simp [hr] at h
  | none =>
  simp only [hr, eval_query_bind, eval_ite, eval_pure] at h
  split at h
  · simp at h
  rename_i hsib
  simp only [Outcome.save.injEq] at h
  refine ⟨p, { p with groupId := body.newGroupId }, ⟨hmem, hid, ⟨rfl, rfl, rfl⟩, h.1.symm⟩, requireGroup_none hr, ?_⟩
  intro q hq hqg hqs
  simp only [List.any_eq_true, not_exists, not_and, Bool.and_eq_true, decide_eq_true_eq, hid] at hsib
  exact by_contra fun hne => hsib q hq ⟨hqg, hqs⟩ hne

end Saves

end ProjectEndpoints

end DuckRun.Dashboard
