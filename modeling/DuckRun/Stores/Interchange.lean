import DuckRun.Stores.RunMap
/-!
# The run stores side by side

`InMemoryJobRunStore` finds a job's runs under its name ignoring case, and
`EfCoreJobRunStore` under the very name that is asked for. As long as no job
has more runs than the memory keeps, they answer alike exactly when the
database holds every run as it is and the name is spelled as the job's.
-/

namespace DuckRun.Stores

open DuckRun.Lib
open DuckRun.Runtime (Instant StoreCall RunHistory HistoryInv added addedUnder latest latest_cons latest_of_added)
open DuckRun.Persistence (stateName)

/-- What callers ask for: fresh ids and growing times for the runs that are
added, no more of them than the memory keeps, and updates of added runs only,
whose id, name and time are set once. -/
structure Usual (fold : String → String) (maxPerJob : Nat) (h : RunHistory) : Prop where
  capped : ∀ key, (addedUnder fold key h.calls).length ≤ maxPerJob
  increasing : (added h.calls).Pairwise fun a b => b.createdAt < a.createdAt
  created : ∀ c ∈ h.calls, ∀ run ∈ added h.calls, run.id = c.run.id → run.createdAt = c.run.createdAt

/-- What `EfCoreJobRunStore` has after calls of which some may throw. -/
def efCoreRows (env : Environment) (calls : List Call) : List Row :=
  calls.foldl (attempt (EfCoreJobRunStore.step env)) []

/-- The two stores answer alike, by id and for a name, the times as instants. -/
structure AnswerAlike (fold : String → String) (env : Environment) (h : RunHistory) (rows : List Row) (jobName : String) : Prop where
  get : ∀ id, h.store.getAsync id = (getAsync env rows id).map JobRun.instants
  recent : ∀ take, h.store.getRecentForJobAsync fold jobName take =
    (getRecentForJobAsync env rows jobName take).map JobRun.instants
  count : h.store.countInFlightAsync fold jobName = countInFlightAsync rows jobName

/-- The database holds the run as it is: EF Core leaves its id alone, the table
takes its row, and the columns keep its times. -/
structure Storable (env : Environment) (run : Runtime.JobRun) : Prop where
  id : run.id ≠ Guid.empty
  accepted : env.accepts (Persistence.toRecord run)
  kept : env.keep (Persistence.toRecord run) = Persistence.toRecord run

/-! ## The memory -/

section Memory
variable {fold : String → String} {maxPerJob : Nat} {cs : List StoreCall} {h : RunHistory}

theorem exec_calls (hrun : exec (RunHistory.step fold maxPerJob) .empty cs = some h) : h.calls = cs.reverse := by
  refine exec_history (fun cs h => h.calls = cs.reverse) ?_ rfl hrun
  intro cs h c h' hcs hs
  rw [List.reverse_append, List.reverse_singleton, List.singleton_append, ← hcs]
  obtain ⟨run, rfl, -, rfl⟩ | ⟨run, rfl, -, rfl⟩ := RunHistory.step_cases hs
  · rfl
  · rfl

/-- Every call is about a run that was added, under its name. -/
theorem exec_added (hrun : exec (RunHistory.step fold maxPerJob) .empty cs = some h) :
    ∀ c ∈ h.calls, ∃ run ∈ added h.calls, run.id = c.run.id ∧ run.jobName = c.run.jobName := by
  refine exec_inv (fun h => ∀ c ∈ h.calls, ∃ run ∈ added h.calls, run.id = c.run.id ∧ run.jobName = c.run.jobName) ?_ ?_ hrun
  · intro h c h' hi hs
    obtain ⟨run, rfl, -, rfl⟩ | ⟨run, rfl, hadded, rfl⟩ := RunHistory.step_cases hs
    · refine List.forall_mem_cons.2 ⟨⟨run, List.mem_cons_self, rfl, rfl⟩, fun c hc => ?_⟩
      obtain ⟨x, hx, hsame⟩ := hi c hc
      exact ⟨x, List.mem_cons_of_mem _ hx, hsame⟩
    · exact List.forall_mem_cons.2 ⟨hadded, hi⟩
  · intro c hc
    cases hc

theorem latest_mem {calls : List StoreCall} {id : Nat} {run : Runtime.JobRun} (hl : latest calls id = some run) :
    ∃ c ∈ calls, c.run = run ∧ run.id = id := by
  unfold latest at hl
  obtain ⟨c, hc, rfl⟩ := Option.map_eq_some_iff.1 hl
  exact ⟨c, List.mem_of_find?_eq_some hc, rfl, by simpa using List.find?_some hc⟩

/-- What was written for an added run last has its id, its name and its time. -/
theorem latest_added (hrun : exec (RunHistory.step fold maxPerJob) .empty cs = some h) (hu : Usual fold maxPerJob h)
    {run : Runtime.JobRun} (hadded : run ∈ added h.calls) :
    ∃ last, latest h.calls run.id = some last ∧ last.id = run.id ∧ last.jobName = run.jobName ∧ last.createdAt = run.createdAt := by
  obtain ⟨last, hlast⟩ := latest_of_added hadded
  obtain ⟨c, hc, rfl, hid⟩ := latest_mem hlast
  obtain ⟨x, hx, hxid, hxname⟩ := exec_added hrun c hc
  rw [List.inj_on_of_nodup_map (Runtime.historyInv_exec hrun).ids hx hadded (hxid.trans hid)] at hxname
  exact ⟨c.run, hlast, hid, hxname.symm, (hu.created c hc run hadded hid.symm).symm⟩

theorem added_of_latest (hrun : exec (RunHistory.step fold maxPerJob) .empty cs = some h) {id : Nat} {last : Runtime.JobRun}
    (hlast : latest h.calls id = some last) : ∃ run ∈ added h.calls, run.id = id := by
  obtain ⟨c, hc, rfl, hid⟩ := latest_mem hlast
  obtain ⟨run, hrun, hsame, -⟩ := exec_added hrun c hc
  exact ⟨run, hrun, hsame.trans hid⟩

/-- The memory has every run as it was last written. -/
theorem memory_get (hrun : exec (RunHistory.step fold maxPerJob) .empty cs = some h) (hu : Usual fold maxPerJob h) (id : Nat) :
    h.store.getAsync id = latest h.calls id := by
  have hi := Runtime.historyInv_exec hrun
  by_cases hadded : ∃ run ∈ added h.calls, run.id = id
  · obtain ⟨run, hadded, rfl⟩ := hadded
    have hlisted : run.id ∈ h.store.list (fold run.jobName) := by
      rw [hi.lists, List.take_of_length_le (by rw [List.length_map]; exact hu.capped _)]
      exact List.mem_map_of_mem (List.mem_filter.2 ⟨hadded, by simp⟩)
    exact hi.values _ _ hlisted
  · have hnone : h.store.getAsync id = none := by
      by_contra hsome
      obtain ⟨run, hget⟩ := Option.ne_none_iff_exists'.1 hsome
      obtain ⟨x, hx, hid, -⟩ := hi.known id run hget
      exact hadded ⟨x, hx, hid⟩
    rw [hnone]
    symm
    by_contra hsome
    obtain ⟨last, hlast⟩ := Option.ne_none_iff_exists'.1 hsome
    exact hadded (added_of_latest hrun hlast)

end Memory

/-! ## The database -/

section Database
variable {fold : String → String} {maxPerJob : Nat} {env : Environment} {calls : List Call} {h : RunHistory}

/-- The table takes the run of a call. -/
def Accepted (env : Environment) (c : Call) : Bool := env.accepts (rowOf env c.run)

theorem rowOf_eq (env : Environment) (run : JobRun) : rowOf env run = env.keep (Persistence.toRecord run.instants) := by
  rw [rowOf, columns_toRecord]

theorem lastWritten_none {id : Nat} (h : ∀ c ∈ calls, c.run.id ≠ id) : lastWritten calls id = none := by
  induction calls using List.reverseRecOn with
  | nil => rfl
  | append_singleton calls c ih =>
    rw [lastWritten_snoc, if_neg fun he => h c (by simp) he.symm]
    exact ih fun d hd => h d (List.mem_append_left _ hd)

/-- After calls of which some may throw, an id has the row of its last accepted call. -/
theorem efCoreRows_hold (hrun : exec (RunHistory.step fold maxPerJob) .empty (calls.map Call.instants) = some h)
    (hids : ∀ c ∈ calls, c.run.id ≠ Guid.empty) :
    Stored env (efCoreRows env calls) ∧
      ∀ id, (efCoreRows env calls).find? (fun row => row.id = id) =
        (lastWritten (calls.filter (Accepted env)) id).map fun run => env.keep (Persistence.toRecord run) := by
  induction calls using List.reverseRecOn generalizing h with
  | nil => exact ⟨stored_nil, fun _ => rfl⟩
  | append_singleton calls c ih =>
    rw [List.map_append, exec_append] at hrun
    obtain ⟨before, hbefore, hstep⟩ := Option.bind_eq_some_iff.1 hrun
    obtain ⟨after, hafter, -⟩ := exec_cons_some.1 hstep
    obtain ⟨hst, hfind⟩ := ih hbefore fun d hd => hids d (List.mem_append_left _ hd)
    have hadd : EfCoreJobRunStore.add env (efCoreRows env calls) (toRecord c.run) = toRecord c.run :=
      efCore_add (hids c (by simp)) (efCoreRows env calls)
    have hlast : efCoreRows env (calls ++ [c]) = attempt (EfCoreJobRunStore.step env) (efCoreRows env calls) c := by
      unfold efCoreRows
      rw [List.foldl_append]
      rfl
    rw [hlast]
    unfold attempt
    cases hres : EfCoreJobRunStore.step env (efCoreRows env calls) c with
    | some rows =>
      obtain ⟨hst', haccepts, hfind'⟩ := step_some hst hadd hres
      have hfilter : (calls ++ [c]).filter (Accepted env) = calls.filter (Accepted env) ++ [c] := by
        rw [List.filter_append, List.filter_cons_of_pos (p := Accepted env) haccepts, List.filter_nil]
      refine ⟨hst', fun id => ?_⟩
      rw [Option.getD_some, hfind', hfilter, lastWritten_snoc]
      by_cases hid : id = c.run.id
      · rw [if_pos hid, if_pos hid, rowOf_eq]
        rfl
      · rw [if_neg hid, if_neg hid, hfind]
    | none =>
      have hrefused : ¬ env.accepts (rowOf env c.run) := by
        rcases step_none hadd hres with hrefused | ⟨run, rfl, hmem⟩
        · exact hrefused
        · -- A fresh id has no row, so it is not the key that was refused.
          have hfresh : ∀ d ∈ calls, d.run.id ≠ run.id := by
            intro d hd he
            obtain ⟨x, hx, hid, -⟩ := exec_added hbefore d.instants (by
              rw [exec_calls hbefore, List.mem_reverse]
              exact List.mem_map_of_mem hd)
            obtain ⟨r, hr, hnew, -⟩ | ⟨r, hr, -⟩ := RunHistory.step_cases hafter
            · cases hr
              refine hnew (List.mem_map.2 ⟨x, hx, hid.trans ?_⟩)
              rw [instants_run]
              exact he
            · cases hr
          have hnone : (efCoreRows env calls).find? (fun row => row.id = run.id) = none := by
            rw [hfind, lastWritten_none fun d hd => hfresh d (List.mem_filter.1 hd).1]
            rfl
          obtain ⟨row, hrow, hid⟩ := List.mem_map.1 hmem
          exact absurd hid (find_row_none hnone row hrow)
      have hfilter : (calls ++ [c]).filter (Accepted env) = calls.filter (Accepted env) := by
        rw [List.filter_append, List.filter_cons_of_neg (p := Accepted env) hrefused, List.filter_nil, List.append_nil]
      rw [hfilter]
      exact ⟨hst, hfind⟩

theorem lastWritten_accepted {id : Nat} (hc : ∀ run, lastWritten calls id = some run → env.accepts (env.keep (Persistence.toRecord run))) :
    lastWritten (calls.filter (Accepted env)) id = lastWritten calls id := by
  induction calls using List.reverseRecOn with
  | nil => rfl
  | append_singleton calls d ih =>
    rw [lastWritten_snoc] at hc ⊢
    rw [List.filter_append]
    by_cases hid : id = d.run.id
    · rw [if_pos hid] at hc ⊢
      have haccepts : Accepted env d := by
        unfold Accepted
        rw [rowOf_eq]
        exact hc _ rfl
      rw [List.filter_cons_of_pos haccepts, List.filter_nil, lastWritten_snoc, if_pos hid]
    · rw [if_neg hid] at hc ⊢
      by_cases haccepts : Accepted env d
      · rw [List.filter_cons_of_pos haccepts, List.filter_nil, lastWritten_snoc, if_neg hid, ih hc]
      · rw [List.filter_cons_of_neg haccepts, List.filter_nil, List.append_nil, ih hc]

end Database

/-! ## Both -/

section Both
variable {fold : String → String} {maxPerJob : Nat} {env : Environment} {calls : List Call} {h : RunHistory} {jobName : String}

theorem lastWritten_eq_latest (hrun : exec (RunHistory.step fold maxPerJob) .empty (calls.map Call.instants) = some h) (id : Nat) :
    lastWritten calls id = latest h.calls id := by
  rw [exec_calls hrun]
  rfl

/-- The rows are those of the runs as last written, if they are all storable. -/
theorem efCoreRows_find (hrun : exec (RunHistory.step fold maxPerJob) .empty (calls.map Call.instants) = some h)
    (hstorable : ∀ run ∈ added h.calls, ∀ last, latest h.calls run.id = some last → Storable env last) :
    Stored env (efCoreRows env calls) ∧
      ∀ id, (efCoreRows env calls).find? (fun row => row.id = id) = (latest h.calls id).map Persistence.toRecord := by
  have hlatest : ∀ id last, latest h.calls id = some last → Storable env last := by
    intro id last hlast
    obtain ⟨run, hadded, rfl⟩ := added_of_latest hrun hlast
    exact hstorable run hadded last hlast
  have hids : ∀ c ∈ calls, c.run.id ≠ Guid.empty := by
    intro c hc
    obtain ⟨last, hlast⟩ := lastWritten_of_mem hc
    rw [lastWritten_eq_latest hrun] at hlast
    obtain ⟨d, -, rfl, hid⟩ := latest_mem hlast
    rw [← hid]
    exact (hlatest _ _ hlast).id
  obtain ⟨hst, hfind⟩ := efCoreRows_hold hrun hids
  refine ⟨hst, fun id => ?_⟩
  rw [hfind, lastWritten_accepted, lastWritten_eq_latest hrun]
  · cases hlast : latest h.calls id with
    | none => rfl
    | some last =>
      rw [Option.map_some, Option.map_some, (hlatest id last hlast).kept]
  · intro last hlast
    rw [lastWritten_eq_latest hrun] at hlast
    rw [(hlatest id last hlast).kept]
    exact (hlatest id last hlast).accepted

/-- What `latest` has of an added run. -/
def lastOf (h : RunHistory) (run : Runtime.JobRun) : Runtime.JobRun := (latest h.calls run.id).getD run

theorem lastOf_spec (hrun : exec (RunHistory.step fold maxPerJob) .empty (calls.map Call.instants) = some h)
    (hu : Usual fold maxPerJob h) {run : Runtime.JobRun} (hadded : run ∈ added h.calls) :
    latest h.calls run.id = some (lastOf h run) ∧ (lastOf h run).id = run.id ∧ (lastOf h run).jobName = run.jobName ∧
      (lastOf h run).createdAt = run.createdAt := by
  obtain ⟨last, hlast, hsame⟩ := latest_added hrun hu hadded
  unfold lastOf
  rw [hlast]
  exact ⟨rfl, hsame⟩

/-- The rows of a name are those of the runs that were added under it. -/
theorem efCoreRows_perm (hrun : exec (RunHistory.step fold maxPerJob) .empty (calls.map Call.instants) = some h)
    (hu : Usual fold maxPerJob h)
    (hstorable : ∀ run ∈ added h.calls, ∀ last, latest h.calls run.id = some last → Storable env last) :
    ((efCoreRows env calls).filter fun row => row.jobName = jobName).Perm
      (((added h.calls).filter fun run => run.jobName = jobName).map fun run => Persistence.toRecord (lastOf h run)) := by
  obtain ⟨hst, hfind⟩ := efCoreRows_find hrun hstorable
  have hids := (Runtime.historyInv_exec hrun).ids
  have hkeys : (((added h.calls).filter fun run => run.jobName = jobName).map fun run => Persistence.toRecord (lastOf h run)).map
      (fun row => row.id) = ((added h.calls).filter fun run => run.jobName = jobName).map Runtime.JobRun.id := by
    rw [List.map_map]
    exact List.map_congr_left fun run hmem => (lastOf_spec hrun hu (List.mem_filter.1 hmem).1).2.1
  have hnodup : (((added h.calls).filter fun run => run.jobName = jobName).map fun run => Persistence.toRecord (lastOf h run)).Nodup := by
    refine List.Nodup.of_map (fun row => row.id) ?_
    rw [hkeys]
    exact nodup_map_filter _ hids
  refine (List.perm_ext_iff_of_nodup (hst.keyed.of_map.filter _) hnodup).2 fun row => ?_
  rw [List.mem_filter, decide_eq_true_eq, List.mem_map]
  constructor
  · rintro ⟨hrow, rfl⟩
    have hlast := hfind row.id
    rw [(find_row_iff hst.keyed row.id row).2 ⟨hrow, rfl⟩] at hlast
    obtain ⟨last, hlast, hrecord⟩ := Option.map_eq_some_iff.1 hlast.symm
    obtain ⟨run, hadded, hid⟩ := added_of_latest hrun hlast
    obtain ⟨hlatest, -, hname, -⟩ := lastOf_spec hrun hu hadded
    rw [hid, hlast] at hlatest
    obtain rfl := Option.some.inj hlatest
    exact ⟨run, List.mem_filter.2 ⟨hadded, by simp [← hname, ← hrecord, Persistence.toRecord]⟩, hrecord⟩
  · rintro ⟨run, hmem, rfl⟩
    obtain ⟨hadded, hnamed⟩ := List.mem_filter.1 hmem
    obtain ⟨hlatest, -, hname, -⟩ := lastOf_spec hrun hu hadded
    have hfound := hfind run.id
    rw [hlatest] at hfound
    exact ⟨(find_row_mem hfound).1, hname.trans (by simpa using hnamed)⟩

theorem getRecentForJobAsync_instants (rows : List Row) (take : Nat) :
    (getRecentForJobAsync env rows jobName take).map JobRun.instants =
      ((env.newest.sort (·.createdAt) (rows.filter fun row => row.jobName = jobName)).take take).map runOf := by
  unfold getRecentForJobAsync
  rw [List.map_map, List.map_map]
  exact List.map_congr_left fun row _ => fromRecord_instants env.zone env.kind row

/-- From the newest, the rows come in the order in which their runs were added. -/
theorem efCoreRows_sorted (hrun : exec (RunHistory.step fold maxPerJob) .empty (calls.map Call.instants) = some h)
    (hu : Usual fold maxPerJob h)
    (hstorable : ∀ run ∈ added h.calls, ∀ last, latest h.calls run.id = some last → Storable env last) :
    env.newest.sort (·.createdAt) ((efCoreRows env calls).filter fun row => row.jobName = jobName) =
      ((added h.calls).filter fun run => run.jobName = jobName).map fun run => Persistence.toRecord (lastOf h run) := by
  have htimes : (((added h.calls).filter fun run => run.jobName = jobName).map fun run => Persistence.toRecord (lastOf h run)).map
      (fun row => row.createdAt) = ((added h.calls).filter fun run => run.jobName = jobName).map Runtime.JobRun.createdAt := by
    rw [List.map_map]
    exact List.map_congr_left fun run hmem => (lastOf_spec hrun hu (List.mem_filter.1 hmem).1).2.2.2
  have hdecreasing : (((added h.calls).filter fun run => run.jobName = jobName).map Runtime.JobRun.createdAt).Pairwise (· > ·) :=
    List.pairwise_map.2 (hu.increasing.filter _)
  refine env.newest.sort_eq (fun a b hab hba => ?_) (efCoreRows_perm hrun hu hstorable) ?_ ?_
  · exact le_antisymm ((env.newest_le b a).1 hba) ((env.newest_le a b).1 hab)
  · rw [htimes]
    exact hdecreasing.imp fun hab => ne_of_gt hab
  · rw [← htimes, List.pairwise_map] at hdecreasing
    exact hdecreasing.imp fun hab => (env.newest_le _ _).2 (le_of_lt hab)

/-- Stores of the same runs answer alike to the very names of the jobs. -/
theorem alike_of_storable (hrun : exec (RunHistory.step fold maxPerJob) .empty (calls.map Call.instants) = some h)
    (hu : Usual fold maxPerJob h)
    (hstorable : ∀ run ∈ added h.calls, ∀ last, latest h.calls run.id = some last → Storable env last)
    (hspelled : ∀ run ∈ added h.calls, fold run.jobName = fold jobName → run.jobName = jobName) :
    AnswerAlike fold env h (efCoreRows env calls) jobName := by
  obtain ⟨-, hfind⟩ := efCoreRows_find hrun hstorable
  obtain ⟨hrecent, hcount⟩ := Runtime.run_history_spec fold maxPerJob _ h hrun jobName
  have hunder : addedUnder fold (fold jobName) h.calls = (added h.calls).filter fun run => run.jobName = jobName := by
    unfold addedUnder
    refine List.filter_congr fun run hadded => ?_
    rw [decide_eq_decide]
    exact ⟨hspelled run hadded, congrArg fold⟩
  have hcapped := hu.capped (fold jobName)
  have hlast : ∀ run ∈ (added h.calls).filter (fun run => run.jobName = jobName), latest h.calls run.id = some (lastOf h run) :=
    fun run hmem => (lastOf_spec hrun hu (List.mem_filter.1 hmem).1).1
  rw [hunder] at hrecent hcount hcapped
  refine ⟨fun runId => ?_, fun take => ?_, ?_⟩
  · have hback : runOf ∘ Persistence.toRecord = id := funext runOf_toRecord
    rw [memory_get hrun hu, getAsync_instants, hfind, Option.map_map, hback, Option.map_id]
    rfl
  · refine (List.map_injective_iff.2 (Option.some_injective _)) ?_
    rw [hrecent, ← List.take_take, List.take_of_length_le hcapped, getRecentForJobAsync_instants, efCoreRows_sorted hrun hu hstorable,
      ← List.map_take, List.map_map, List.map_map]
    refine List.map_congr_left fun run hmem => ?_
    rw [hlast run (List.mem_of_mem_take hmem)]
    exact congrArg some (runOf_toRecord _).symm
  · have hrows : countInFlightAsync (efCoreRows env calls) jobName =
        ((efCoreRows env calls).filter fun row => row.jobName = jobName).countP fun row => row.state = stateName .running := by
      unfold countInFlightAsync
      rw [List.countP_filter]
      refine List.countP_congr fun row _ => ?_
      simp only [Bool.and_eq_true, decide_eq_true_eq, and_comm]
    rw [hcount, List.take_of_length_le hcapped, hrows, (efCoreRows_perm hrun hu hstorable).countP_eq, List.countP_map]
    refine List.countP_congr fun run hmem => ?_
    rw [hlast run hmem]
    simp [Persistence.toRecord, stateName_inj]

/-- A run that both stores have is one the database holds as it is. -/
theorem storable_of_alike (hrun : exec (RunHistory.step fold maxPerJob) .empty (calls.map Call.instants) = some h)
    (hu : Usual fold maxPerJob h)
    (hget : ∀ id, h.store.getAsync id = (getAsync env (efCoreRows env calls) id).map JobRun.instants) :
    ∀ run ∈ added h.calls, ∀ last, latest h.calls run.id = some last → Storable env last := by
  have hkeys : ∀ row ∈ efCoreRows env calls, row.id ≠ Guid.empty :=
    foldl_attempt_inv (fun rows : List Row => ∀ row ∈ rows, row.id ≠ Guid.empty) (fun _ _ _ => efCore_keys) (by simp) calls
  have hids : ∀ c ∈ calls, c.run.id ≠ Guid.empty := by
    intro c hc he
    obtain ⟨last, hlast⟩ := lastWritten_of_mem hc
    have hnone : (efCoreRows env calls).find? (fun row => row.id = Guid.empty) = none := by simpa using hkeys
    have hempty := hget Guid.empty
    rw [memory_get hrun hu, ← lastWritten_eq_latest hrun, getAsync_instants, hnone, ← he, hlast] at hempty
    cases hempty
  obtain ⟨hst, hfind⟩ := @efCoreRows_hold _ _ env _ _ hrun hids
  intro run _ last hlast
  have hrow := hget run.id
  rw [memory_get hrun hu, hlast, getAsync_instants] at hrow
  obtain ⟨row, hfound, hlastrow⟩ := Option.map_eq_some_iff.1 hrow.symm
  have hmem := find_row_mem hfound
  -- The row is that of a run, so its state is a name and it is the row of the run it is read as.
  have hrecord : Persistence.toRecord last = row := by
    rw [hfind] at hfound
    obtain ⟨written, -, hwritten⟩ := Option.map_eq_some_iff.1 hfound
    rw [← hlastrow, ← hwritten]
    simp [Persistence.toRecord, runOf, Environment.keep]
  refine ⟨?_, ?_, ?_⟩
  · have hid : last.id = row.id := congrArg (·.id) hrecord
    rw [hid]
    exact hkeys row hmem.1
  · rw [hrecord]
    exact hst.accepted row hmem.1
  · rw [hrecord]
    exact hst.kept row hmem.1

/-- A job whose runs both stores list under a name has that very name. -/
theorem spelled_of_alike (hrun : exec (RunHistory.step fold maxPerJob) .empty (calls.map Call.instants) = some h)
    (hu : Usual fold maxPerJob h) {rows : List Row}
    (hrecent : ∀ take, h.store.getRecentForJobAsync fold jobName take =
      (getRecentForJobAsync env rows jobName take).map JobRun.instants) :
    ∀ run ∈ added h.calls, fold run.jobName = fold jobName → run.jobName = jobName := by
  intro run hadded hkey
  obtain ⟨hlatest, -, hname, -⟩ := lastOf_spec hrun hu hadded
  have hunder : run ∈ addedUnder fold (fold jobName) h.calls := List.mem_filter.2 ⟨hadded, by simpa using hkey⟩
  have hmemory := (Runtime.run_history_spec fold maxPerJob _ h hrun jobName).1 maxPerJob
  have hcapped := hu.capped (fold jobName)
  rw [Nat.min_self, List.take_of_length_le hcapped] at hmemory
  have hlisted : some (lastOf h run) ∈ (h.store.getRecentForJobAsync fold jobName maxPerJob).map some := by
    rw [hmemory]
    exact List.mem_map.2 ⟨run, hunder, hlatest⟩
  obtain ⟨last, hlast, he⟩ := List.mem_map.1 hlisted
  cases he
  rw [hrecent, getRecentForJobAsync_instants] at hlast
  obtain ⟨row, hrow, hlast⟩ := List.mem_map.1 hlast
  have hnamed := (List.mem_filter.1 (env.newest.mem_sort.1 (List.mem_of_mem_take hrow))).2
  rw [← hname, ← hlast]
  simpa [runOf] using hnamed

end Both

/-- After the same calls the two stores answer alike, by id and for a name,
exactly when the database holds every run as it was last written, and no job
has a name that differs from the one asked for in case only. -/
theorem run_stores_alike_iff (fold : String → String) (maxPerJob : Nat) (env : Environment) (calls : List Call) (h : RunHistory)
    (hrun : exec (RunHistory.step fold maxPerJob) .empty (calls.map Call.instants) = some h) (hu : Usual fold maxPerJob h)
    (jobName : String) :
    AnswerAlike fold env h (efCoreRows env calls) jobName ↔
      (∀ run ∈ added h.calls, ∀ last, latest h.calls run.id = some last → Storable env last) ∧
      ∀ run ∈ added h.calls, fold run.jobName = fold jobName → run.jobName = jobName := by
  constructor
  · intro halike
    exact ⟨storable_of_alike hrun hu halike.get, spelled_of_alike hrun hu halike.recent⟩
  · rintro ⟨hstorable, hspelled⟩
    exact alike_of_storable hrun hu hstorable hspelled

/-- `OrdinalIgnoreCase` on the names below. -/
def upperSync (s : String) : String := if s = "sync" then "SYNC" else s

/-- The job sync is triggered and begins. -/
def syncRuns : List Call :=
  [.add (pendingRun 1 "sync" 10), .update { pendingRun 1 "sync" 10 with state := .running, startedAt := some ⟨12, 0⟩ }]

theorem syncRuns_usual : ∃ h, exec (RunHistory.step upperSync 100) .empty (syncRuns.map Call.instants) = some h ∧
    Usual upperSync 100 h ∧ ∀ run ∈ added h.calls, ∀ last, latest h.calls run.id = some last → Storable exactDatabase last := by
  refine ⟨_, rfl, ⟨fun key => ?_, ?_, ?_⟩, ?_⟩
  · exact (List.length_filter_le _ _).trans (by decide)
  · exact List.pairwise_singleton _ _
  · decide
  · intro run hadded last hlast
    obtain rfl := List.mem_singleton.1 hadded
    cases hlast
    exact ⟨by decide, rfl, rfl⟩

/-- Asked for SYNC, the memory has a run and the table has none. -/
theorem asked_in_capitals :
    ¬ ∀ (fold : String → String) (maxPerJob : Nat) (env : Environment) (calls : List Call) (h : RunHistory),
      exec (RunHistory.step fold maxPerJob) .empty (calls.map Call.instants) = some h → Usual fold maxPerJob h → env.Exact →
      (∀ run ∈ added h.calls, ∀ last, latest h.calls run.id = some last → Storable env last) →
      ∀ jobName, AnswerAlike fold env h (efCoreRows env calls) jobName := by
  intro hall
  obtain ⟨h, hrun, hu, hstorable⟩ := syncRuns_usual
  have halike := hall upperSync 100 exactDatabase syncRuns h hrun hu (fun _ => rfl) hstorable "SYNC"
  have hcount := halike.count
  cases hrun
  revert hcount
  decide

theorem run_stores_alike_sync : ∃ h, exec (RunHistory.step upperSync 100) .empty (syncRuns.map Call.instants) = some h ∧
    AnswerAlike upperSync exactDatabase h (efCoreRows exactDatabase syncRuns) "sync" := by
  obtain ⟨h, hrun, hu, hstorable⟩ := syncRuns_usual
  refine ⟨h, hrun, (run_stores_alike_iff upperSync 100 exactDatabase syncRuns h hrun hu "sync").2 ⟨hstorable, ?_⟩⟩
  cases hrun
  decide

end DuckRun.Stores
