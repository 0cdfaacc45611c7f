import DuckRun.Dashboard.Interleavings
/-!
# Project slugs under concurrent requests

The check for a sibling with the same slug and the save are apart, so what
keeps slugs unique is the index on `(GroupId, Slug)`, and it does not look at
projects without a group. Slugs stay unique exactly as long as no save puts a
project without a group on the slug of another one (`slugs_unique_iff`).
-/

namespace DuckRun.Dashboard

open DuckRun.Lib DuckRun.Lib.Queries ProjectEndpoints

/-- No two rows agree in `GroupId`, the null included, and in `Slug`. -/
def UniqueSlugs (db : Store) : Prop := (db.projects.map fun p => (p.groupId, p.slug)).Nodup

/-- The project a change writes, as the row will read, does not end up without a
group on the slug of another project without a group. -/
def FreeAtRoot (db : Store) : Change → Prop
  | .addProject p => p.groupId = none → ∀ q ∈ db.projects, q.groupId = none → q.slug ≠ p.slug
  | .updateProject o c => ∀ p ∈ db.projects, p.id = o.id → (Project.merge o c p).groupId = none →
      ∀ q ∈ db.projects, q.id ≠ o.id → q.groupId = none → q.slug ≠ (Project.merge o c p).slug
  | _ => True

instance (db : Store) : (c : Change) → Decidable (FreeAtRoot db c)
  | .addProject p => inferInstanceAs (Decidable (p.groupId = none → ∀ q ∈ db.projects, q.groupId = none → q.slug ≠ p.slug))
  | .updateProject o c => inferInstanceAs (Decidable (∀ p ∈ db.projects, p.id = o.id →
      (Project.merge o c p).groupId = none → ∀ q ∈ db.projects, q.id ≠ o.id → q.groupId = none →
        q.slug ≠ (Project.merge o c p).slug))
  | .addGroup _ | .addGroupMember _ | .addProjectMember _ | .updateGroup _ _ | .removeGroup _ | .removeGroupMember _ =>
    .isTrue trivial

/-- The changes a task is about to save. -/
def Server.pending (s : Server) (i : Nat) : Option (List Change) :=
  match s.tasks[i]? with
  | some ⟨_, .done (.save cs _)⟩ => some cs
  | _ => none

/-- A save that the database takes leaves the slugs without a group alone. -/
def Server.KeepsRootSlugs (s : Server) : Action → Prop
  | .commit i accepted => ∀ cs, s.pending i = some cs → (s.db.saveChanges accepted cs).isSome → ∀ c ∈ cs, FreeAtRoot s.db c
  | _ => True

/-! ## What a save does to the project table -/

def Change.sparesProjects : Change → Bool
  | .addProject _ | .updateProject _ _ => false
  | _ => true

/-- At most one row of the project table is written. -/
def SavesOneProject (cs : List Change) : Prop := (∀ c ∈ cs, c.sparesProjects = true) ∨ SavesProject cs

theorem handle_savesOneProject (chars : CharTable) (r : Request) :
    Yields (Outcome.Saves SavesOneProject) (handle chars r) := by
  have hgroups : ∀ (W : Guid → Option Guid → Prop) (cs : List Change), Repoints W cs → SavesOneProject cs := by
    refine fun W cs h => .inl fun c hc => ?_
    obtain ⟨o, g, rfl, -⟩ := h c hc
    rfl
  have hw := handle_yields chars r
  cases r with
  | createGroup env body =>
    refine hw.mono fun _ h => h.mono fun cs hcs => .inl fun c hc => ?_
    obtain ⟨g, m, rfl, -⟩ := hcs
    rcases List.mem_cons.1 hc with rfl | hc
    · rfl
    · rw [List.mem_singleton.1 hc]
      rfl
  | updateGroup id body => exact hw.mono fun _ h => h.mono (hgroups (fun _ _ => False))
  | moveGroup id body => exact hw.mono fun _ h => h.mono (hgroups (fun k p => k = id ∧ p = body.newParentGroupId))
  | deleteGroup id =>
    refine hw.mono fun _ h => h.mono fun cs hcs => .inl fun c hc => ?_
    obtain ⟨ms, rfl⟩ := hcs
    rcases List.mem_append.1 hc with hc | hc
    · obtain ⟨m, -, rfl⟩ := List.mem_map.1 hc
      rfl
    · rw [List.mem_singleton.1 hc]
      rfl
  | createProject env body => exact (createProjectAsync_yields env body).mono fun _ h => h.saves fun _ => .inr
  | updateProject id body => exact (updateProjectAsync_yields id body).mono fun _ h => h.saves fun _ => .inr
  | moveProject id body => exact (moveProjectAsync_yields id body).mono fun _ h => h.saves fun _ => .inr

theorem projects_spared (db : Store) {cs : List Change} (h : ∀ c ∈ cs, c.sparesProjects = true) :
    (db.applyAll cs).projects = db.projects := by
  induction cs generalizing db with
  | nil => rfl
  | cons c cs ih =>
    rw [Store.applyAll_cons, ih _ fun x hx => h x (List.mem_cons_of_mem _ hx)]
    have hc := h c List.mem_cons_self
    cases c with
    | addProject | updateProject => cases hc
    | _ => rfl

section Saves
variable {db : Store}

theorem uniqueSlugs_iff (hn : db.projects.Nodup) :
    UniqueSlugs db ↔ ∀ p ∈ db.projects, ∀ q ∈ db.projects, p.groupId = q.groupId → p.slug = q.slug → p = q := by
  unfold UniqueSlugs
  rw [List.nodup_map_iff_inj_on hn]
  simp only [Prod.mk.injEq, and_imp]

/-- A save that writes one row keeps the slugs apart if that row does not take
the slug of another one outside of all groups; the index sees to the rest. -/
theorem uniqueSlugs_written {db' : Store} (h : UniqueSlugs db) (hok : db'.indexesOk = true) {w : Project}
    (hw : w ∈ db'.projects) (hothers : ∀ q ∈ db'.projects, q.id ≠ w.id → q ∈ db.projects) :
    UniqueSlugs db' ↔
      (w.groupId = none → ∀ q ∈ db'.projects, q.id ≠ w.id → q.groupId = none → q.slug ≠ w.slug) := by
  have hids := Store.projects_nodup hok
  have hindex := (indexKeys_nodup (hids.of_map _)).1 (Store.projectIndex hok)
  have hrow : ∀ {x y : Project}, x ∈ db'.projects → y ∈ db'.projects → x.id = y.id → x = y :=
    fun hx hy he => List.inj_on_of_nodup_map hids hx hy he
  rw [uniqueSlugs_iff (hids.of_map _)]
  constructor
  · intro hall hnone q hq hne hqnone hslug
    exact hne (congrArg Project.id (hall q hq w hw (hqnone.trans hnone.symm) hslug))
  · intro hfree x hx y hy hg hs
    by_cases hnone : x.groupId = none
    · have hynone : y.groupId = none := hg ▸ hnone
      by_cases hxw : x.id = w.id
      · obtain rfl := hrow hx hw hxw
        by_contra hne
        exact hfree hnone y hy (fun he => hne (hrow hy hw he).symm) hynone hs.symm
      · by_cases hyw : y.id = w.id
        · obtain rfl := hrow hy hw hyw
          exact absurd hs (hfree hynone x hx hxw hnone)
        · exact (uniqueSlugs_iff (h.of_map _)).1 h x (hothers x hx hxw) y (hothers y hy hyw) hg hs
    · exact hindex x hx y hy hnone hg hs

theorem uniqueSlugs_add (h : UniqueSlugs db) {p : Project} {m : ProjectMember}
    (hok : (db.applyAll [.addProject p, .addProjectMember m]).indexesOk = true) :
    UniqueSlugs (db.applyAll [.addProject p, .addProjectMember m]) ↔ FreeAtRoot db (.addProject p) := by
  have hrows : (db.applyAll [.addProject p, .addProjectMember m]).projects = db.projects ++ [p] := rfl
  have hids := Store.projects_nodup hok
  rw [hrows, List.map_append, List.nodup_append] at hids
  have hnew : ∀ q ∈ db.projects, q.id ≠ p.id := fun q hq =>
    hids.2.2 _ (List.mem_map_of_mem hq) _ (List.mem_singleton.2 rfl)
  have hold : ∀ q ∈ db.projects ++ [p], q.id ≠ p.id → q ∈ db.projects := by
    intro q hq hne
    rcases List.mem_append.1 hq with hq | hq
    · exact hq
    · exact absurd (congrArg Project.id (List.mem_singleton.1 hq)) hne
  rw [uniqueSlugs_written h hok (hrows ▸ List.mem_append_right _ (List.mem_singleton.2 rfl)) (hrows ▸ hold), hrows]
  refine forall_congr' fun hnone => ⟨fun hall q hq => ?_, fun hall q hq hne => hall q (hold q hq hne)⟩
  exact hall q (List.mem_append_left _ hq) (hnew q hq)

theorem uniqueSlugs_update (h : UniqueSlugs db) {o c : Project}
    (hok : (db.applyAll [.updateProject o c]).indexesOk = true) :
    UniqueSlugs (db.applyAll [.updateProject o c]) ↔ FreeAtRoot db (.updateProject o c) := by
  have hrows : (db.applyAll [.updateProject o c]).projects =
      updateKey Project.id o.id (Project.merge o c) db.projects := rfl
  have hids := Store.projects_nodup hok
  rw [hrows, map_updateKey (Project.merge_id o c)] at hids
  by_cases hp : ∃ p ∈ db.projects, p.id = o.id
  · obtain ⟨p, hp, hpid⟩ := hp
    have hw : Project.merge o c p ∈ updateKey Project.id o.id (Project.merge o c) db.projects :=
      mem_updateKey.2 ⟨p, hp, by rw [if_pos hpid]⟩
    have hothers : ∀ q, q.id ≠ p.id →
        (q ∈ updateKey Project.id o.id (Project.merge o c) db.projects ↔ q ∈ db.projects) := by
      intro q hne
      rw [mem_updateKey]
      constructor
      · rintro ⟨x, hx, rfl⟩
        split at hne
        · exact absurd ‹x.id = o.id› fun he => hne (he.trans hpid.symm)
        · rwa [if_neg ‹_›]
      · exact fun hq => ⟨q, hq, by rw [if_neg fun he => hne (he.trans hpid.symm)]⟩
    rw [uniqueSlugs_written h hok (hrows ▸ hw) (hrows ▸ fun q hq hne => (hothers q hne).1 hq), hrows]
    constructor
    · intro hall x hx hxid hnone q hq hne
      rw [List.inj_on_of_nodup_map hids hx hp (hxid.trans hpid.symm)] at hnone ⊢
      have hne' : q.id ≠ p.id := fun he => hne (he.trans hpid)
      exact hall hnone q ((hothers q hne').2 hq) hne'
    · intro hall hnone q hq hne
      exact hall p hp hpid hnone q ((hothers q hne).1 hq) fun he => hne (he.trans hpid.symm)
  · -- The row is gone, and nothing is written.
    have hsame : updateKey Project.id o.id (Project.merge o c) db.projects = db.projects := by
      refine (List.map_congr_left fun x hx => if_neg fun he => hp ⟨x, hx, he⟩).trans (List.map_id _)
    refine iff_of_true ?_ fun p hp' hid => absurd ⟨p, hp', hid⟩ hp
    unfold UniqueSlugs
    rw [hrows, hsame]
    exact h

theorem uniqueSlugs_save (h : UniqueSlugs db) {cs : List Change} (hw : SavesOneProject cs)
    (hok : (db.applyAll cs).indexesOk = true) : UniqueSlugs (db.applyAll cs) ↔ ∀ c ∈ cs, FreeAtRoot db c := by
  rcases hw with hspare | ⟨p, m, rfl⟩ | ⟨o, c, rfl⟩
  · unfold UniqueSlugs
    rw [projects_spared db hspare]
    refine iff_of_true h fun c hc => ?_
    have hc := hspare c hc
    cases c with
    | addProject | updateProject => cases hc
    | _ => trivial
  · rw [uniqueSlugs_add h hok, List.forall_mem_cons, List.forall_mem_singleton]
    exact (and_iff_left trivial).symm
  · unfold detectChange at hok ⊢
    split at hok
    · rw [if_pos ‹_›]
      exact iff_of_true h (by simp)
    · rw [if_neg ‹_›, uniqueSlugs_update h hok, List.forall_mem_singleton]

end Saves

/-! ## All interleavings -/

/-- The slugs are unique, and every request in progress will write one project at most. -/
structure SlugInv (s : Server) : Prop where
  unique : UniqueSlugs s.db
  writes : ∀ t ∈ s.tasks, Yields (Outcome.Saves SavesOneProject) t.program

theorem slugInv_step {chars : CharTable} {s s' : Server} {a : Action} (h : s.step chars a = some s') (hi : SlugInv s) :
    (∀ t ∈ s'.tasks, Yields (Outcome.Saves SavesOneProject) t.program) ∧
      (UniqueSlugs s'.db ↔ s.KeepsRootSlugs a) := by
  obtain ⟨hwrites, hsaves⟩ := Server.step_saves (W := fun _ => SavesOneProject) (handle_savesOneProject chars) hi.writes h
  refine ⟨hwrites, ?_⟩
  rcases hsaves with ⟨hdb, hother⟩ | ⟨i, accepted, r, cs, resp, rfl, ht, hw, hdb⟩
  · have hkeeps : s.KeepsRootSlugs a := by
      cases a with
      | commit i accepted => exact absurd rfl (hother i accepted)
      | _ => trivial
    rw [hdb]
    exact iff_of_true hi.unique hkeeps
  · have hpending : s.pending i = some cs := by simp only [Server.pending, ht]
    rw [hdb]
    simp only [Server.KeepsRootSlugs, hpending, Option.some.injEq, forall_eq']
    cases hsave : s.db.saveChanges accepted cs with
    | none => exact iff_of_true hi.unique (by simp)
    | some db' =>
      obtain ⟨rfl, hok⟩ := Store.saveChanges_some hsave
      exact (uniqueSlugs_save hi.unique hw hok).trans (by simp)

/-- The projects of every store on the way have slugs of their own exactly if no
save gives a project without a group the slug of another one. -/
theorem slugs_unique_iff (chars : CharTable) {db : Store} (hdb : UniqueSlugs db) {as : List Action} {s : Server}
    (hrun : exec (Server.step chars) ⟨db, []⟩ as = some s) :
    (∀ pre t, pre <+: as → exec (Server.step chars) ⟨db, []⟩ pre = some t → UniqueSlugs t.db) ↔
      Along (Server.step chars) Server.KeepsRootSlugs ⟨db, []⟩ as := by
  refine forall_prefix_iff_along SlugInv (fun t => UniqueSlugs t.db) (fun _ hi => hi.unique) ?_ ?_
    ⟨hdb, by simp⟩ hrun
  · intro t a t' hi hstep hkeeps
    obtain ⟨hwrites, hunique⟩ := slugInv_step hstep hi
    exact ⟨hunique.2 hkeeps, hwrites⟩
  · intro t a t' hi hstep
    exact (slugInv_step hstep hi).2.1

/-- The request that arrives, if one does, is about a project. -/
def Action.projectsOnly : Action → Bool
  | .arrive (.createProject _ _) | .arrive (.updateProject _ _) | .arrive (.moveProject _ _) => true
  | .arrive _ => false
  | _ => true

/-- A project of this name for the root namespace. -/
def createAtRoot (id : Guid) (name : String) : Action :=
  .arrive (.createProject ⟨9, id, id + 100, 0⟩ ⟨some name.toList, none, none⟩)

/-- Two requests for a project `p`; each looks for the other's before either saves. -/
def sameSlugTwice : List Action :=
  [createAtRoot 1 "p", createAtRoot 2 "p", .read 0, .read 1, .commit 0 true, .commit 0 true]

theorem sameSlugTwice_run :
    (exec (Server.step ascii) ⟨.empty, []⟩ sameSlugTwice).map (fun s => s.db.projects.map fun p => (p.groupId, p.slug)) =
      some [(none, "p".toList), (none, "p".toList)] := by
  decide +kernel

theorem slugs_can_repeat : ¬ ∀ (chars : CharTable) (db : Store), db.indexesOk = true → UniqueSlugs db →
    ∀ (as : List Action) (s : Server), (∀ a ∈ as, a.projectsOnly = true) →
      exec (Server.step chars) ⟨db, []⟩ as = some s → UniqueSlugs s.db := by
  intro h
  obtain ⟨s, hs, hslugs⟩ := Option.map_eq_some_iff.1 sameSlugTwice_run
  have hunique := h ascii .empty (by decide) List.nodup_nil sameSlugTwice s (by decide) hs
  rw [UniqueSlugs, hslugs] at hunique
  simp at hunique

/-- Two requests at the same time for projects of different names. -/
def otherSlugs : List Action :=
  [createAtRoot 1 "p", createAtRoot 2 "q", .read 0, .read 1, .commit 0 true, .commit 0 true]

theorem slugs_unique_otherSlugs : ∃ s, exec (Server.step ascii) ⟨.empty, []⟩ otherSlugs = some s ∧
    s.db.projects.map Project.slug = ["p".toList, "q".toList] ∧ UniqueSlugs s.db := by
  have hempty : UniqueSlugs .empty := List.nodup_nil
  have hkeeps : Along (Server.step ascii) Server.KeepsRootSlugs ⟨.empty, []⟩ otherSlugs := by
    iterate 4 refine along_cons trivial rfl ?_
    refine along_cons ?_ rfl (along_cons ?_ rfl trivial)
    · rintro cs ⟨⟩ -
      decide +kernel
    · rintro cs ⟨⟩ -
      decide +kernel
  refine ⟨_, rfl, by decide +kernel, ?_⟩
  exact (slugs_unique_iff ascii hempty rfl).2 hkeeps otherSlugs _ List.prefix_rfl rfl

end DuckRun.Dashboard
