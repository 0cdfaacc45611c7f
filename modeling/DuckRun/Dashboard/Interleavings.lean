import DuckRun.Dashboard.Writes
import DuckRun.Lib.Machine
/-!
# Requests at the same time

The dashboard with any number of requests in progress. Each reads committed
rows at times of its own and saves once, and no save looks at what the others
saved meanwhile: there is no row version, no lock and no foreign key. The
hierarchy stays a forest as long as every save still fits the rows it is saved
to (`StillFits`); two moves that do not see each other close a cycle.
-/

namespace DuckRun.Dashboard

open DuckRun.Lib DuckRun.Lib.Queries

/-- A request in progress and what is left of its handler. -/
structure Task where
  request : Request
  program : Handler

structure Server where
  db : Store
  tasks : List Task

inductive Action where
  | arrive (r : Request)
  /-- Task `i` gets the answer to its next query. -/
  | read (i : Nat)
  /-- Task `i` ends without a save. -/
  | answer (i : Nat)
  /-- Task `i` saves and ends; `accepted` as for `Store.saveChanges`. -/
  | commit (i : Nat) (accepted : Bool)

def Server.step (chars : CharTable) (s : Server) : Action → Option Server
  | .arrive r => some { s with tasks := s.tasks ++ [⟨r, handle chars r⟩] }
  | .read i =>
    match s.tasks[i]? with
    | some ⟨r, .ask q k⟩ => some { s with tasks := s.tasks.set i ⟨r, k (q s.db)⟩ }
    | _ => none
  | .answer i =>
    match s.tasks[i]? with
    | some ⟨_, .done (.answer _)⟩ => some { s with tasks := s.tasks.eraseIdx i }
    | _ => none
  | .commit i accepted =>
    match s.tasks[i]? with
    | some ⟨_, .done (.save cs _)⟩ =>
      some { db := (s.db.saveChanges accepted cs).getD s.db, tasks := s.tasks.eraseIdx i }
    | _ => none

/-- What the request checked of the hierarchy is still true of the rows. -/
def StillFits (db : Store) : Request → Prop
  | .createGroup _ body => ∀ p, body.parentGroupId = some p → (db.pointers p).isSome
  | .moveGroup id body => ∀ p, body.newParentGroupId = some p → (db.pointers p).isSome ∧ ¬ Below db.pointers id p
  | .deleteGroup id => ∀ k, db.pointers k ≠ some (some id)
  | _ => True

/-- A step that saves, saves something that still fits. -/
def Server.Fits (s : Server) : Action → Prop
  | .commit i true => ∀ t, s.tasks[i]? = some t → StillFits s.db t.request
  | _ => True

/-! ## One save -/

theorem rooted_save {s : Store} {r : Request} {cs : List Change} (hs : Rooted s.pointers) (hw : r.Writes cs)
    (hfit : StillFits s r) (hok : (s.applyAll cs).indexesOk = true) : Rooted (s.applyAll cs).pointers := by
  cases r with
  | createGroup env body =>
    obtain ⟨g, m, rfl, hp⟩ := hw
    have hids : (s.groups ++ [g]).map Group.id |>.Nodup := Store.groups_nodup hok
    rw [List.map_append, List.nodup_append] at hids
    have hnew : ∀ h ∈ s.groups, h.id ≠ g.id := fun h hh =>
      hids.2.2 _ (List.mem_map_of_mem hh) _ (List.mem_singleton.2 rfl)
    obtain ⟨hnone, hptr⟩ := pointers_addGroup hnew
    have hlast : (s.applyAll [.addGroup g, .addGroupMember m]).pointers = (s.apply (.addGroup g)).pointers := rfl
    rw [hlast, hptr, hp]
    exact rooted_insert hs hnone hfit
  | updateGroup id body =>
    rw [pointers_repoints_none hw]
    exact hs
  | moveGroup id body =>
    rcases pointers_repoints hw with h | h <;> rw [h]
    · exact hs
    · exact rooted_reparent hs hfit
  | deleteGroup id =>
    obtain ⟨ms, rfl⟩ := hw
    have hms : (s.applyAll (ms.map .removeGroupMember)).pointers = s.pointers := by
      apply pointers_elsewhere
      intro c hc
      obtain ⟨m, -, rfl⟩ := List.mem_map.1 hc
      rfl
    have hlast : (s.applyAll (ms.map .removeGroupMember ++ [.removeGroup id])).pointers =
        Function.update s.pointers id none := by
      rw [Store.applyAll_append, Store.applyAll_cons, Store.applyAll_nil, pointers_removeGroup, hms]
    rw [hlast]
    exact rooted_remove hs hfit
  | createProject | updateProject | moveProject =>
    rw [pointers_elsewhere s hw]
    exact hs

/-! ## All interleavings -/

structure ServerInv (s : Server) : Prop where
  rooted : Rooted s.db.pointers
  writes : ∀ t ∈ s.tasks, Yields (Outcome.Saves t.request.Writes) t.program

/-- What a step does: a commit saves what its task's handler may save, and any
other step leaves the rows alone. The tasks are still at their handlers. -/
theorem Server.step_saves {chars : CharTable} {W : Request → List Change → Prop} {s s' : Server} {a : Action}
    (hW : ∀ r, Yields (Outcome.Saves (W r)) (handle chars r))
    (hi : ∀ t ∈ s.tasks, Yields (Outcome.Saves (W t.request)) t.program) (h : s.step chars a = some s') :
    (∀ t ∈ s'.tasks, Yields (Outcome.Saves (W t.request)) t.program) ∧
      ((s'.db = s.db ∧ ∀ i accepted, a ≠ .commit i accepted) ∨
        ∃ i accepted r cs resp, a = .commit i accepted ∧ s.tasks[i]? = some ⟨r, .done (.save cs resp)⟩ ∧ W r cs ∧
          s'.db = (s.db.saveChanges accepted cs).getD s.db) := by
  cases a with
  | arrive r =>
    cases h
    refine ⟨fun t ht => ?_, .inl ⟨rfl, fun _ _ ha => by cases ha⟩⟩
    rcases List.mem_append.1 ht with ht | ht
    · exact hi t ht
    · rw [List.mem_singleton.1 ht]
      exact hW r
  | read i =>
    simp only [Server.step] at h
    split at h
    · rename_i β r q k ht
      cases h
      refine ⟨fun t ht' => ?_, .inl ⟨rfl, fun _ _ ha => by cases ha⟩⟩
      rcases List.mem_or_eq_of_mem_set ht' with ht' | rfl
      · exact hi t ht'
      · exact hi _ (List.mem_of_getElem? ht) s.db
    · cases h
  | answer i =>
    simp only [Server.step] at h
    split at h
    · cases h
      exact ⟨fun t ht => hi t (List.mem_of_mem_eraseIdx ht), .inl ⟨rfl, fun _ _ ha => by cases ha⟩⟩
    · cases h
  | commit i accepted =>
    simp only [Server.step] at h
    split at h
    · rename_i r cs resp ht
      cases h
      refine ⟨fun t ht' => hi t (List.mem_of_mem_eraseIdx ht'), .inr ⟨i, accepted, r, cs, resp, rfl, ht, ?_, rfl⟩⟩
      exact hi _ (List.mem_of_getElem? ht)
    · cases h

theorem serverInv_step {chars : CharTable} {s s' : Server} {a : Action} (hi : ServerInv s) (hfit : s.Fits a)
    (h : s.step chars a = some s') : ServerInv s' := by
  obtain ⟨hwrites, ⟨hdb, -⟩ | ⟨i, accepted, r, cs, resp, rfl, ht, hw, hdb⟩⟩ := Server.step_saves (handle_yields chars) hi.writes h
  · exact ⟨hdb ▸ hi.rooted, hwrites⟩
  · refine ⟨?_, hwrites⟩
    rw [hdb]
    cases hsave : s.db.saveChanges accepted cs with
    | none => exact hi.rooted
    | some db' =>
      obtain ⟨rfl, hok⟩ := Store.saveChanges_some hsave
      cases accepted with
      | false => cases hsave
      | true => exact rooted_save hi.rooted hw (hfit _ ht) hok

/-- While every save still fits, the parent chain of every group ends at a root. -/
theorem chains_end_while_saves_fit (chars : CharTable) {db : Store} (hdb : WellFormed db) {as : List Action}
    {s : Server} (hrun : exec (Server.step chars) ⟨db, []⟩ as = some s)
    (hfit : Along (Server.step chars) Server.Fits ⟨db, []⟩ as) :
    ∀ g ∈ s.db.groups, EndsAtRoot s.db.pointers g.id := by
  have h0 : ServerInv ⟨db, []⟩ := by
    refine ⟨fun k hk => ?_, by simp⟩
    obtain ⟨p, hp⟩ := Option.isSome_iff_exists.1 hk
    obtain ⟨g, hg, -⟩ := Option.map_eq_some_iff.1 hp
    obtain ⟨hmem, rfl⟩ := findGroup_mem hg
    exact hdb.rooted g hmem
  have hs : ServerInv s := exec_inv_along Server.Fits ServerInv (fun _ _ _ => serverInv_step) h0 hfit hrun
  intro g hg
  refine hs.rooted g.id ?_
  have hfound : (s.db.findGroup g.id).isSome := List.find?_isSome.2 ⟨g, hg, by simp⟩
  simpa [Store.pointers] using hfound

/-! ## Two groups -/

/-- Two top-level groups, `a` and `b`. -/
def twoRoots : Store :=
  { Store.empty with
    groups := [⟨1, "a".toList, "a".toList, none, none, "a".toList, 0, 9, 0⟩,
      ⟨2, "b".toList, "b".toList, none, none, "b".toList, 0, 9, 0⟩] }

theorem wellFormed_twoRoots : WellFormed twoRoots := by
  apply inv_wellFormed
  constructor <;> simp [twoRoots, Store.empty, PlacedUnder, GroupEndpoints.maxDepth]

/-- Each group is moved under the other, and both moves read before either saves. -/
def crossedMoves : List Action :=
  [.arrive (.moveGroup 1 ⟨some 2⟩), .arrive (.moveGroup 2 ⟨some 1⟩)] ++
    List.replicate 7 (.read 0) ++ List.replicate 7 (.read 1) ++ [.commit 0 true, .commit 0 true]

/-- What the crossed moves leave: each group is the other's parent. -/
def crossed : Store :=
  { twoRoots with
    groups := [⟨1, "a".toList, "a".toList, none, some 2, "b/a".toList, 1, 9, 0⟩,
      ⟨2, "b".toList, "b".toList, none, some 1, "a/b".toList, 1, 9, 0⟩] }

theorem crossedMoves_run :
    (exec (Server.step ascii) ⟨twoRoots, []⟩ crossedMoves).map (fun s => (s.db, s.tasks.length)) =
      some (crossed, 0) := by
  decide +kernel

/-- Not every interleaving leaves a forest. -/
theorem moves_can_cross : ¬ ∀ (chars : CharTable) (db : Store), WellFormed db → ∀ (as : List Action) (s : Server),
    exec (Server.step chars) ⟨db, []⟩ as = some s → s.tasks = [] →
      ∀ g ∈ s.db.groups, EndsAtRoot s.db.pointers g.id := by
  intro h
  obtain ⟨s, hs, hend⟩ := Option.map_eq_some_iff.1 crossedMoves_run
  obtain ⟨hdb, htasks⟩ := Prod.mk.inj hend
  have hroot := h ascii twoRoots wellFormed_twoRoots crossedMoves s hs (List.length_eq_zero_iff.1 htasks)
  rw [hdb] at hroot
  have hcycle : Below crossed.pointers 1 2 := .child (p := 1) rfl .self
  exact (hroot _ List.mem_cons_self).no_cycle 2 rfl hcycle

/-- A create under `a` while `b` is renamed to `c`. -/
def createAndRename : List Action :=
  [.arrive (.createGroup ⟨9, 3, 4, 0⟩ ⟨some "x".toList, none, none, some 1⟩),
    .arrive (.updateGroup 2 ⟨none, some "c".toList, none⟩),
    .read 0, .read 1, .read 0, .read 1, .read 1, .commit 0 true, .commit 0 true]

theorem chains_end_createAndRename : ∃ s, exec (Server.step ascii) ⟨twoRoots, []⟩ createAndRename = some s ∧
    s.db.groups.map Group.fullPath = ["a".toList, "c".toList, "a/x".toList] ∧
      ∀ g ∈ s.db.groups, EndsAtRoot s.db.pointers g.id := by
  have hfit : Along (Server.step ascii) Server.Fits ⟨twoRoots, []⟩ createAndRename := by
    iterate 7 refine along_cons trivial rfl ?_
    refine along_cons ?_ rfl (along_cons ?_ rfl trivial)
    · rintro t ⟨⟩ p ⟨⟩
      rfl
    · rintro t ⟨⟩
      trivial
  refine ⟨_, rfl, by decide +kernel, ?_⟩
  exact chains_end_while_saves_fit ascii wellFormed_twoRoots rfl hfit

end DuckRun.Dashboard
