import DuckRun.Runtime.InMemoryJobRunStore
import Mathlib.Data.List.Perm.Subperm
/-!
# What the run history holds

After any calls the list of a job is the newest runs added under its name, and
every run in it is kept as it was last written (`HistoryInv`). The table by id
holds these runs and no others exactly when no call updated a run that newer
runs of its job had pushed out.
-/

namespace DuckRun.Runtime

open DuckRun.Lib

structure HistoryInv (fold : String → String) (maxPerJob : Nat) (h : RunHistory) : Prop where
  ids : ((added h.calls).map JobRun.id).Nodup
  lists : ∀ key, h.store.list key = ((addedUnder fold key h.calls).map JobRun.id).take maxPerJob
  values : ∀ key, ∀ id ∈ h.store.list key, h.store.byId id = latest h.calls id
  known : ∀ id run, h.store.byId id = some run → ∃ r ∈ added h.calls, r.id = id ∧ run.id = id ∧ r.jobName = run.jobName

/-! ## The calls -/

section Calls
variable {fold : String → String} {calls : List StoreCall} {run : JobRun} {key : String} {id : Nat}

theorem addedUnder_add :
    addedUnder fold key (.add run :: calls) =
      if fold run.jobName = key then run :: addedUnder fold key calls else addedUnder fold key calls := by
  unfold addedUnder
  have hadded : added (.add run :: calls) = run :: added calls := rfl
  rw [hadded, List.filter_cons]
  simp only [decide_eq_true_eq]

theorem latest_cons (c : StoreCall) : latest (c :: calls) id = if id = c.run.id then some c.run else latest calls id := by
  unfold latest
  rw [List.find?_cons]
  by_cases h : id = c.run.id
  · simp [h]
  · simp [h, Ne.symm h]

theorem latest_of_added (h : run ∈ added calls) : ∃ r, latest calls run.id = some r := by
  obtain ⟨c, hc, hrun⟩ := List.mem_filterMap.1 h
  have hid : c.run.id = run.id := by
    cases c with
    | add r =>
      cases hrun
      rfl
    | update r => cases hrun
  cases hfind : calls.find? fun c => c.run.id = run.id with
  | none => exact absurd hid (by simpa using List.find?_eq_none.1 hfind c hc)
  | some d => exact ⟨d.run, by rw [latest, hfind]; rfl⟩

end Calls

/-! ## One call -/

section Inv
variable {fold : String → String} {maxPerJob : Nat} {h : RunHistory}

/-- The list of a job in a store whose tables are these. -/
theorem list_update (byId : Nat → Option JobRun) (byJob : String → Option (List Nat)) (key key' : String) (l : List Nat) :
    (⟨byId, Function.update byJob key (some l)⟩ : InMemoryJobRunStore).list key' =
      if key' = key then l else (byJob key').getD [] := by
  unfold InMemoryJobRunStore.list
  by_cases hk : key' = key
  · simp [hk]
  · simp [hk]

theorem HistoryInv.of_mem_list (hi : HistoryInv fold maxPerJob h) {key : String} {id : Nat} (hid : id ∈ h.store.list key) :
    ∃ run ∈ added h.calls, run.id = id ∧ fold run.jobName = key := by
  rw [hi.lists] at hid
  obtain ⟨run, hrun, rfl⟩ := List.mem_map.1 (List.mem_of_mem_take hid)
  obtain ⟨hadded, hkey⟩ := List.mem_filter.1 hrun
  exact ⟨run, hadded, rfl, by simpa using hkey⟩

/-- A run is in the list of one job at most. -/
theorem HistoryInv.key_unique (hi : HistoryInv fold maxPerJob h) {key key' : String} {id : Nat}
    (hid : id ∈ h.store.list key) (hid' : id ∈ h.store.list key') : key = key' := by
  obtain ⟨run, hrun, rfl, rfl⟩ := hi.of_mem_list hid
  obtain ⟨run', hrun', he, rfl⟩ := hi.of_mem_list hid'
  rw [List.inj_on_of_nodup_map hi.ids hrun' hrun he]

theorem HistoryInv.nodup_list (hi : HistoryInv fold maxPerJob h) (key : String) : (h.store.list key).Nodup := by
  rw [hi.lists]
  exact (nodup_map_filter _ hi.ids).sublist (List.take_sublist _ _)

theorem HistoryInv.fresh_list (hi : HistoryInv fold maxPerJob h) {id : Nat} (hid : id ∉ (added h.calls).map JobRun.id)
    (key : String) : id ∉ h.store.list key := by
  intro hmem
  obtain ⟨run, hrun, rfl, -⟩ := hi.of_mem_list hmem
  exact hid (List.mem_map_of_mem hrun)

theorem historyInv_empty : HistoryInv fold maxPerJob .empty := by
  constructor <;> simp [RunHistory.empty, InMemoryJobRunStore.new, InMemoryJobRunStore.list, added, addedUnder]

/-- What `AddAsync` leaves in the table by id. -/
theorem byId_addAsync (s : InMemoryJobRunStore) (run : JobRun) (id : Nat) :
    (s.addAsync fold maxPerJob run).byId id =
      if id ∈ pushedOut maxPerJob run.id (s.list (fold run.jobName)) then none
      else if id = run.id then some run else s.byId id := by
  unfold InMemoryJobRunStore.addAsync
  dsimp only
  rw [removeAll_apply, Function.update_apply]

theorem list_addAsync (s : InMemoryJobRunStore) (run : JobRun) (key : String) :
    (s.addAsync fold maxPerJob run).list key =
      if key = fold run.jobName then push maxPerJob run.id (s.list (fold run.jobName)) else s.list key := by
  unfold InMemoryJobRunStore.addAsync
  rw [list_update]
  rfl

theorem historyInv_add (hi : HistoryInv fold maxPerJob h) {run : JobRun}
    (hfresh : run.id ∉ (added h.calls).map JobRun.id) :
    HistoryInv fold maxPerJob ⟨h.store.addAsync fold maxPerJob run, .add run :: h.calls⟩ where
  ids := List.nodup_cons.2 ⟨hfresh, hi.ids⟩
  lists key := by
    dsimp only
    rw [list_addAsync, addedUnder_add]
    by_cases hk : key = fold run.jobName
    · rw [if_pos hk, if_pos hk.symm, ← hk, hi.lists key, push_take, List.map_cons]
    · rw [if_neg hk, if_neg (Ne.symm hk)]
      exact hi.lists key
  values key id hid := by
    dsimp only at hid ⊢
    rw [list_addAsync] at hid
    have hnodup : (run.id :: h.store.list (fold run.jobName)).Nodup :=
      List.nodup_cons.2 ⟨hi.fresh_list hfresh _, hi.nodup_list _⟩
    rw [byId_addAsync, latest_cons]
    by_cases hk : key = fold run.jobName
    · rw [if_pos hk] at hid
      rw [if_neg (not_mem_pushedOut hnodup hid)]
      by_cases he : id = run.id
      · rw [if_pos he]
        exact (if_pos he).symm
      · rw [if_neg he]
        have hold := (mem_push_or_pushedOut.1 (.inl hid)).resolve_left he
        exact (hi.values _ id hold).trans (if_neg he).symm
    · -- A run of another job is not among those pushed out, and is not the new one.
      rw [if_neg hk] at hid
      have he : id ≠ run.id := fun he => hi.fresh_list hfresh key (he ▸ hid)
      have hkept : id ∉ pushedOut maxPerJob run.id (h.store.list (fold run.jobName)) := by
        intro hout
        have hold := (mem_push_or_pushedOut.1 (.inr hout)).resolve_left he
        exact hk (hi.key_unique hid hold)
      rw [if_neg hkept, if_neg he]
      exact (hi.values key id hid).trans (if_neg he).symm
  known id r hr := by
    dsimp only at hr ⊢
    rw [byId_addAsync] at hr
    split at hr
    · cases hr
    · split at hr
      · rename_i he
        cases hr
        exact ⟨run, List.mem_cons_self, he.symm, he.symm, rfl⟩
      · obtain ⟨x, hx, hid⟩ := hi.known id r hr
        exact ⟨x, List.mem_cons_of_mem _ hx, hid⟩

theorem historyInv_update (hi : HistoryInv fold maxPerJob h) {run : JobRun}
    (hadded : ∃ r ∈ added h.calls, r.id = run.id ∧ r.jobName = run.jobName) :
    HistoryInv fold maxPerJob ⟨h.store.updateAsync run, .update run :: h.calls⟩ where
  ids := hi.ids
  lists := hi.lists
  values key id hid := by
    dsimp only
    rw [latest_cons]
    unfold InMemoryJobRunStore.updateAsync
    dsimp only
    rw [Function.update_apply]
    by_cases he : id = run.id
    · rw [if_pos he]
      exact (if_pos he).symm
    · rw [if_neg he]
      exact (hi.values key id hid).trans (if_neg he).symm
  known id r hr := by
    unfold InMemoryJobRunStore.updateAsync at hr
    dsimp only at hr
    rw [Function.update_apply] at hr
    split at hr
    · rename_i he
      cases hr
      obtain ⟨x, hx, hid, hname⟩ := hadded
      exact ⟨x, hx, hid.trans he.symm, he.symm, hname⟩
    · exact hi.known id r hr

/-- What a call does, by its kind. -/
theorem RunHistory.step_cases {h' : RunHistory} {c : StoreCall} (hs : h.step fold maxPerJob c = some h') :
    (∃ run, c = .add run ∧ run.id ∉ (added h.calls).map JobRun.id ∧
      h' = ⟨h.store.addAsync fold maxPerJob run, .add run :: h.calls⟩) ∨
    ∃ run, c = .update run ∧ (∃ r ∈ added h.calls, r.id = run.id ∧ r.jobName = run.jobName) ∧
      h' = ⟨h.store.updateAsync run, .update run :: h.calls⟩ := by
  cases c with
  | add run =>
    simp only [RunHistory.step] at hs
    split at hs <;> cases hs
    rename_i hfresh
    exact .inl ⟨run, rfl, hfresh, rfl⟩
  | update run =>
    simp only [RunHistory.step] at hs
    split at hs <;> cases hs
    rename_i hadded
    exact .inr ⟨run, rfl, hadded, rfl⟩

theorem historyInv_step {h' : RunHistory} {c : StoreCall} (hi : HistoryInv fold maxPerJob h)
    (hs : h.step fold maxPerJob c = some h') : HistoryInv fold maxPerJob h' := by
  obtain ⟨run, rfl, hfresh, rfl⟩ | ⟨run, rfl, hadded, rfl⟩ := RunHistory.step_cases hs
  · exact historyInv_add hi hfresh
  · exact historyInv_update hi hadded

theorem historyInv_exec {cs : List StoreCall} (hrun : exec (RunHistory.step fold maxPerJob) .empty cs = some h) :
    HistoryInv fold maxPerJob h :=
  exec_inv (HistoryInv fold maxPerJob) (fun _ _ _ hi hs => historyInv_step hi hs) historyInv_empty hrun

/-! ## What a reader is told -/

theorem getRecentForJobAsync_eq (s : InMemoryJobRunStore) (jobName : String) (take : Nat) :
    s.getRecentForJobAsync fold jobName take = ((s.list (fold jobName)).take take).filterMap s.byId := by
  unfold InMemoryJobRunStore.getRecentForJobAsync InMemoryJobRunStore.list
  cases s.byJob (fold jobName) with
  | none => simp
  | some l => rfl

theorem countInFlightAsync_eq (s : InMemoryJobRunStore) (jobName : String) :
    s.countInFlightAsync fold jobName =
      (s.list (fold jobName)).countP fun id => (s.byId id).any fun run => run.state = .running := by
  unfold InMemoryJobRunStore.countInFlightAsync InMemoryJobRunStore.list
  cases s.byJob (fold jobName) with
  | none => rfl
  | some l => rfl

theorem HistoryInv.resolves (hi : HistoryInv fold maxPerJob h) {key : String} {id : Nat} (hid : id ∈ h.store.list key) :
    ∃ run, h.store.byId id = some run := by
  obtain ⟨run, hrun, rfl, -⟩ := hi.of_mem_list hid
  rw [hi.values key run.id hid]
  exact latest_of_added hrun

end Inv

/-- What the store is for. Of the runs added under a name, ignoring case, a
reader gets the newest, at most as many as asked for and at most the cap, each
as it was last written; and the count is of those in state Running. -/
theorem run_history_spec (fold : String → String) (maxPerJob : Nat) (cs : List StoreCall) (h : RunHistory)
    (hrun : exec (RunHistory.step fold maxPerJob) .empty cs = some h) (jobName : String) :
    (∀ take, (h.store.getRecentForJobAsync fold jobName take).map some =
      ((addedUnder fold (fold jobName) h.calls).take (min take maxPerJob)).map fun run => latest h.calls run.id) ∧
    h.store.countInFlightAsync fold jobName =
      ((addedUnder fold (fold jobName) h.calls).take maxPerJob).countP fun run =>
        (latest h.calls run.id).any fun r => r.state = .running := by
  have hi := historyInv_exec hrun
  have hvalues := hi.values (fold jobName)
  have hlist := hi.lists (fold jobName)
  constructor
  · intro take
    have hsub : ∀ id ∈ (h.store.list (fold jobName)).take take, id ∈ h.store.list (fold jobName) :=
      fun id hid => List.mem_of_mem_take hid
    rw [getRecentForJobAsync_eq, map_some_filterMap fun id hid => hi.resolves (hsub id hid)]
    rw [List.map_congr_left fun id hid => hvalues id (hsub id hid)]
    rw [hlist, List.take_take, ← List.map_take, List.map_map]
    rfl
  · rw [countInFlightAsync_eq]
    have hcount : (h.store.list (fold jobName)).countP (fun id => (h.store.byId id).any fun run => run.state = .running) =
        (h.store.list (fold jobName)).countP fun id => (latest h.calls id).any fun run => run.state = .running := by
      refine List.countP_congr fun id hid => ?_
      rw [hvalues id hid]
    rw [hcount, hlist, ← List.map_take, List.countP_map]
    rfl

def pendingRun (id : Nat) (jobName : String) : JobRun :=
  ⟨id, jobName, 0, none, none, .pending, "Cron", none, none⟩

/-- Three runs with room for two; the oldest is updated after it was pushed out. -/
def threeRuns : List StoreCall :=
  [.add (pendingRun 1 "nightly"), .add (pendingRun 2 "nightly"), .update { pendingRun 2 "nightly" with state := .running },
    .add (pendingRun 3 "nightly"), .update { pendingRun 1 "nightly" with state := .failed }]

theorem run_history_threeRuns :
    ∃ h, exec (RunHistory.step id 2) .empty threeRuns = some h ∧
      (h.store.getRecentForJobAsync id "nightly" 5).map some =
        [some (pendingRun 3 "nightly"), some { pendingRun 2 "nightly" with state := .running }] ∧
      h.store.countInFlightAsync id "nightly" = 1 := by
  refine ⟨_, rfl, ?_⟩
  obtain ⟨hrecent, hcount⟩ := run_history_spec id 2 threeRuns _ rfl "nightly"
  rw [hrecent, hcount]
  exact ⟨by decide, by decide⟩

/-! ## The two tables -/

/-- The table by id holds the runs in the lists and no others; so it holds at
most the cap for each job, and a run pushed out by newer ones is not in it. -/
structure RunHistory.InStep (fold : String → String) (maxPerJob : Nat) (h : RunHistory) : Prop where
  tables : ∀ id, (∃ run, h.store.getAsync id = some run) ↔ ∃ key, id ∈ h.store.list key
  retained : ∀ key (ids : List Nat), ids.Nodup →
    (∀ id ∈ ids, ∃ run, h.store.getAsync id = some run ∧ fold run.jobName = key) → ids.length ≤ maxPerJob
  pushedOut : ∀ key i run, (addedUnder fold key h.calls)[i]? = some run → maxPerJob ≤ i → h.store.getAsync run.id = none

/-- The run an update writes is still in its job's list. -/
def Retained (fold : String → String) (h : RunHistory) : StoreCall → Prop
  | .add _ => True
  | .update run => run.id ∈ h.store.list (fold run.jobName)

section InStep
variable {fold : String → String} {maxPerJob : Nat} {h : RunHistory}

/-- A run beyond the cap is in no list. -/
theorem HistoryInv.not_mem_list (hi : HistoryInv fold maxPerJob h) {key key' : String} {i : Nat} {run : JobRun}
    (hrun : (addedUnder fold key h.calls)[i]? = some run) (hle : maxPerJob ≤ i) : run.id ∉ h.store.list key' := by
  intro hmem
  obtain ⟨r, hr, hid, hkey'⟩ := hi.of_mem_list hmem
  have hrm := List.mem_filter.1 (List.mem_of_getElem? hrun)
  have hsame : r = run := List.inj_on_of_nodup_map hi.ids hr hrm.1 hid
  have hkey : key' = key := by
    rw [← hkey', hsame]
    simpa using hrm.2
  rw [hkey, hi.lists] at hmem
  -- The ids of one key are distinct, so it cannot be both among the first and at `i`.
  have hnodup : ((addedUnder fold key h.calls).map JobRun.id).Nodup := nodup_map_filter _ hi.ids
  obtain ⟨j, hj⟩ := List.mem_iff_getElem?.1 hmem
  obtain ⟨hjlt, -⟩ := List.getElem?_eq_some_iff.1 hj
  rw [List.length_take] at hjlt
  rw [List.getElem?_take_of_lt (by omega)] at hj
  have hi' : ((addedUnder fold key h.calls).map JobRun.id)[i]? = some run.id := by
    rw [List.getElem?_map, hrun]
    rfl
  obtain ⟨hilt, hie⟩ := List.getElem?_eq_some_iff.1 hi'
  obtain ⟨hjlt', hje⟩ := List.getElem?_eq_some_iff.1 hj
  have hij : j = i := (List.Nodup.getElem_inj_iff hnodup).1 (hje.trans hie.symm)
  omega

/-- Tables that agree are all there is to say. -/
theorem HistoryInv.inStep (hi : HistoryInv fold maxPerJob h)
    (htables : ∀ id, (∃ run, h.store.getAsync id = some run) → ∃ key, id ∈ h.store.list key) :
    h.InStep fold maxPerJob where
  tables id := ⟨htables id, fun ⟨_, hid⟩ => hi.resolves hid⟩
  retained key ids hnodup hids := by
    have hsub : ids ⊆ h.store.list key := by
      intro id hid
      obtain ⟨run, hget, rfl⟩ := hids id hid
      obtain ⟨key', hmem⟩ := htables id ⟨run, hget⟩
      obtain ⟨r, hr, hrid, rfl⟩ := hi.of_mem_list hmem
      obtain ⟨x, hx, hxid, -, hname⟩ := hi.known id run hget
      rw [List.inj_on_of_nodup_map hi.ids hr hx (hrid.trans hxid.symm), hname] at hmem
      exact hmem
    have hlist := (List.subperm_of_subset hnodup hsub).length_le
    have hcap : (h.store.list key).length ≤ maxPerJob := by
      rw [hi.lists, List.length_take]
      exact Nat.min_le_left _ _
    exact hlist.trans hcap
  pushedOut key i run hrun hle := by
    cases hget : h.store.getAsync run.id with
    | none => rfl
    | some r =>
      obtain ⟨key', hmem⟩ := htables run.id ⟨r, hget⟩
      exact absurd hmem (hi.not_mem_list hrun hle)

/-- An addition keeps an id that is in the wrong table where it is. -/
theorem tables_add (hi : HistoryInv fold maxPerJob h) {run : JobRun} (hfresh : run.id ∉ (added h.calls).map JobRun.id) :
    (∀ id, (∃ r, (h.store.addAsync fold maxPerJob run).getAsync id = some r) →
        ∃ key, id ∈ (h.store.addAsync fold maxPerJob run).list key) ↔
      ∀ id, (∃ r, h.store.getAsync id = some r) → ∃ key, id ∈ h.store.list key := by
  have hget : ∀ id, (∃ r, (h.store.addAsync fold maxPerJob run).getAsync id = some r) ↔
      id ∉ pushedOut maxPerJob run.id (h.store.list (fold run.jobName)) ∧ (id = run.id ∨ ∃ r, h.store.getAsync id = some r) := by
    intro id
    unfold InMemoryJobRunStore.getAsync
    rw [byId_addAsync]
    by_cases hout : id ∈ pushedOut maxPerJob run.id (h.store.list (fold run.jobName))
    · simp [hout]
    · by_cases he : id = run.id
      · subst he
        simp [hout]
      · simp [hout, he]
  have hmem : ∀ id, (∃ key, id ∈ (h.store.addAsync fold maxPerJob run).list key) ↔
      id ∈ push maxPerJob run.id (h.store.list (fold run.jobName)) ∨
        ∃ key, key ≠ fold run.jobName ∧ id ∈ h.store.list key := by
    intro id
    constructor
    · rintro ⟨key, hid⟩
      rw [list_addAsync] at hid
      split at hid
      · exact .inl hid
      · rename_i hk
        exact .inr ⟨key, hk, hid⟩
    · rintro (hid | ⟨key, hk, hid⟩)
      · exact ⟨fold run.jobName, by rwa [list_addAsync, if_pos rfl]⟩
      · exact ⟨key, by rwa [list_addAsync, if_neg hk]⟩
  constructor
  · rintro hall id ⟨r, hr⟩
    by_cases hout : id ∈ pushedOut maxPerJob run.id (h.store.list (fold run.jobName))
    · rcases mem_push_or_pushedOut.1 (.inr hout) with rfl | hold
      · obtain ⟨x, hx, hid, -⟩ := hi.known _ r hr
        exact absurd (List.mem_map.2 ⟨x, hx, hid⟩) hfresh
      · exact ⟨_, hold⟩
    · rcases (hmem id).1 (hall id ((hget id).2 ⟨hout, .inr ⟨r, hr⟩⟩)) with hnew | ⟨key, -, hold⟩
      · rcases mem_push_or_pushedOut.1 (.inl hnew) with rfl | hold
        · obtain ⟨x, hx, hid, -⟩ := hi.known _ r hr
          exact absurd (List.mem_map.2 ⟨x, hx, hid⟩) hfresh
        · exact ⟨_, hold⟩
      · exact ⟨key, hold⟩
  · intro hall id hid
    obtain ⟨hout, hcase⟩ := (hget id).1 hid
    apply (hmem id).2
    have hlisted : id = run.id ∨ ∃ key, id ∈ h.store.list key := hcase.imp_right (hall id)
    rcases hlisted with rfl | ⟨key, hold⟩
    · exact .inl ((mem_push_or_pushedOut.2 (.inl rfl)).resolve_right hout)
    · by_cases hk : key = fold run.jobName
      · subst hk
        exact .inl ((mem_push_or_pushedOut.2 (.inr hold)).resolve_right hout)
      · exact .inr ⟨key, hk, hold⟩

/-- An update of a run that is in its list keeps the tables in step, and any other does not. -/
theorem tables_update (hi : HistoryInv fold maxPerJob h) {run : JobRun}
    (hadded : ∃ r ∈ added h.calls, r.id = run.id ∧ r.jobName = run.jobName) :
    (∀ id, (∃ r, (h.store.updateAsync run).getAsync id = some r) → ∃ key, id ∈ h.store.list key) ↔
      (∀ id, (∃ r, h.store.getAsync id = some r) → ∃ key, id ∈ h.store.list key) ∧
        run.id ∈ h.store.list (fold run.jobName) := by
  have hget : ∀ id, (∃ r, (h.store.updateAsync run).getAsync id = some r) ↔ id = run.id ∨ ∃ r, h.store.getAsync id = some r := by
    intro id
    unfold InMemoryJobRunStore.updateAsync InMemoryJobRunStore.getAsync
    dsimp only
    rw [Function.update_apply]
    by_cases he : id = run.id
    · simp [he]
    · simp [he]
  have hown : (∃ key, run.id ∈ h.store.list key) ↔ run.id ∈ h.store.list (fold run.jobName) := by
    refine ⟨?_, fun hmem => ⟨_, hmem⟩⟩
    rintro ⟨key, hmem⟩
    obtain ⟨r, hr, hrid, rfl⟩ := hi.of_mem_list hmem
    obtain ⟨x, hx, hxid, hname⟩ := hadded
    rw [List.inj_on_of_nodup_map hi.ids hr hx (hrid.trans hxid.symm), hname] at hmem
    exact hmem
  constructor
  · intro hall
    refine ⟨fun id hid => hall id ((hget id).2 (.inr hid)), ?_⟩
    exact hown.1 (hall run.id ((hget run.id).2 (.inl rfl)))
  · rintro ⟨hall, hmem⟩ id hid
    rcases (hget id).1 hid with rfl | hold
    · exact ⟨_, hmem⟩
    · exact hall id hold

end InStep

/-- The two tables are in step after the calls exactly when every update was of
a run still in its job's list. -/
theorem tables_in_step_iff (fold : String → String) (maxPerJob : Nat) (cs : List StoreCall) (h : RunHistory)
    (hrun : exec (RunHistory.step fold maxPerJob) .empty cs = some h) :
    h.InStep fold maxPerJob ↔ Along (RunHistory.step fold maxPerJob) (Retained fold) .empty cs := by
  have hi := historyInv_exec hrun
  have hiff : h.InStep fold maxPerJob ↔ ∀ id, (∃ r, h.store.getAsync id = some r) → ∃ key, id ∈ h.store.list key :=
    ⟨fun hin id => (hin.tables id).1, hi.inStep⟩
  rw [hiff]
  apply exec_iff_along (HistoryInv fold maxPerJob)
    (fun h => ∀ id, (∃ r, h.store.getAsync id = some r) → ∃ key, id ∈ h.store.list key) ?_ historyInv_empty ?_ hrun
  · rintro h c h' - hi hs
    refine ⟨historyInv_step hi hs, ?_⟩
    obtain ⟨run, rfl, hfresh, rfl⟩ | ⟨run, rfl, hadded, rfl⟩ := RunHistory.step_cases hs
    · exact (tables_add hi hfresh).trans (and_iff_left trivial).symm
    · exact tables_update hi hadded
  · rintro id ⟨r, hr⟩
    cases hr

/-- An update of a run that a newer one had pushed out. -/
def lateUpdate : List StoreCall :=
  [.add (pendingRun 1 "nightly"), .add (pendingRun 2 "nightly"), .update { pendingRun 1 "nightly" with state := .failed }]

theorem updated_after_eviction :
    ¬ ∀ (fold : String → String) (maxPerJob : Nat), 1 ≤ maxPerJob → ∀ (cs : List StoreCall) (h : RunHistory),
      exec (RunHistory.step fold maxPerJob) .empty cs = some h → h.InStep fold maxPerJob := by
  intro h
  have hin := h id 1 (Nat.le_refl 1) lateUpdate _ rfl
  have hgone := hin.pushedOut "nightly" 1 (pendingRun 1 "nightly") rfl (Nat.le_refl 1)
  cases hgone

theorem tables_in_step_nightly :
    ∃ h, exec (RunHistory.step id 2) .empty (threeRuns.take 4) = some h ∧ h.InStep id 2 := by
  refine ⟨_, rfl, ?_⟩
  apply (tables_in_step_iff id 2 (threeRuns.take 4) _ rfl).2
  apply along_cons trivial rfl
  apply along_cons trivial rfl
  refine along_cons ?_ rfl (along_cons trivial rfl trivial)
  show 2 ∈ [2, 1]
  decide

end DuckRun.Runtime
