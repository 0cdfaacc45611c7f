import DuckRun.Dashboard.RunViews
import DuckRun.Reporting.RunShipping
/-!
# The run list and the key figures of reporting processes

Run lists and figures against the snapshots that the processes reported: every
run counts once, with the last snapshot of it that was saved.
-/

namespace DuckRun.Reporting

open DuckRun.Lib DuckRun.Dashboard

/-- Every run has an id and is reported by its own process, and nobody else sends runs. -/
def RunShippingEvent.Owned (owner : Guid → Nat) : RunShippingEvent → Prop
  | .reportRun i run => run.id ≠ 0 ∧ owner run.id = i
  | .ingest _ _ _ call => ∀ runs, call ≠ .sendRuns runs
  | _ => True

def ReportedRun.state (run : ReportedRun) : Text := (Persistence.stateName run.run.state).toList

/-- The entry of a run list that says what a snapshot says. -/
def ReportedRun.summary (nodeId : Text) (run : ReportedRun) : RunSummary :=
  ⟨run.id, run.run.jobName.toList, nodeId, run.state, run.run.triggerSource.toList, run.run.createdAt, run.run.startedAt,
    run.run.finishedAt, run.run.errorMessage.getD "" ≠ ""⟩

/-- The snapshots that pass the filters of a run list. -/
def ReportedRun.Wanted (chars : CharTable) (job state : Option Text) (run : ReportedRun) : Prop :=
  passes chars job run.run.jobName.toList = true ∧ passes chars state run.state = true

/-- The last snapshot of run `id` that the dashboard saved. -/
structure LastSaved (tryParse : Text → Option Guid) (nodeId : Nat → Text) (owner : Guid → Nat) (es : List RunShippingEvent)
    (s : RunShipping) (id : Guid) (run : ReportedRun) : Prop where
  reported : run ∈ reportsBy (owner id) es
  run_id : run.id = id
  last : lastRecord tryParse id (s.handled (owner id)) = some (toProto (nodeId (owner id)) run)

theorem RunShippingEvent.Owned.spares {owner : Guid → Nat} {e : RunShippingEvent} (h : e.Owned owner)
    (tryParse : Text → Option Guid) (id : Guid) : e.Spares tryParse (owner id) id := by
  cases e with
  | reportRun i run =>
    refine ⟨h.1, fun hid => ?_⟩
    rw [← hid]
    exact h.2.symm
  | ingest env accepted header call =>
    cases call with
    | sendRuns runs => exact absurd rfl (h runs)
    | handshake | sendHeartbeat | sendLogs => trivial
  | turn | sendRuns | sendFails => trivial

section Views
variable {chars : CharTable} {tryParse : Text → Option Guid} {header : Nat → Option Text} {nodeId : Nat → Text}
  {before : IngestDb} {projectOf : Nat → Guid} {owner : Guid → Nat} {es : List RunShippingEvent} {s : RunShipping}

/-- The rows are the runs that were saved. -/
structure RowsSaved (tryParse : Text → Option Guid) (nodeId : Nat → Text) (projectOf : Nat → Guid) (owner : Guid → Nat)
    (es : List RunShippingEvent) (s : RunShipping) : Prop where
  row : ∀ id run, LastSaved tryParse nodeId owner es s id run → ∃ row ∈ s.db.tables.jobRuns, row.id = id ∧
    Shows (projectOf (owner id)) (nodeId (owner id)) run row
  saved : ∀ row ∈ s.db.tables.jobRuns, ∃ run, LastSaved tryParse nodeId owner es s row.id run ∧
    Shows (projectOf (owner row.id)) (nodeId (owner row.id)) run row
  errors : ErrorsSaid s.db.tables.jobRuns

theorem errorsSaid_step {s s' : RunShipping} {e : RunShippingEvent} (hs : ErrorsSaid s.db.tables.jobRuns)
    (h : s.step chars tryParse header nodeId e = some s') : ErrorsSaid s'.db.tables.jobRuns := by
  cases e with
  | reportRun i run | sendFails i cancelled =>
    obtain ⟨-, -, hdb⟩ := flush_loopMoves h
    rwa [hdb]
  | turn i ev =>
    simp only [RunShipping.step] at h
    split at h
    · obtain ⟨-, -, hdb⟩ := flush_loopMoves h
      rwa [hdb]
    · cases h
  | sendRuns i env accepted outcome =>
    obtain ⟨-, hdb, -⟩ := sendRuns_some h
    rw [hdb]
    exact errorsSaid_call hs
  | ingest env accepted head call =>
    cases h
    exact errorsSaid_call hs

theorem rowOf_some {db : IngestDb} {id : Guid} {row : JobRun} (h : rowOf db id = some row) :
    row ∈ db.tables.jobRuns ∧ row.id = id :=
  ⟨List.mem_of_find?_eq_some h, by simpa using List.find?_some h⟩

theorem rowOf_mem {db : IngestDb} {row : JobRun} (h : row ∈ db.tables.jobRuns) : rowOf db row.id = some row := by
  cases hrow : rowOf db row.id with
  | none =>
    have hnone := List.find?_eq_none.1 hrow row h
    simp at hnone
  | some row' =>
    obtain ⟨hmem, hid⟩ := rowOf_some hrow
    rw [db.run_inj hmem h hid]

theorem rowsSaved_exec (hparse : ∀ g, tryParse (guidText g).toList = some g)
    (hkeys : ∀ i, ∃ apiKey, resolveAsync chars before.tables (header i) = .ok apiKey ∧ apiKey.projectId = projectOf i)
    (hnew : before.tables.jobRuns = []) (howned : ∀ e ∈ es, e.Owned owner)
    (hgrows : ∀ i, (reportsBy i es).Pairwise fun r r' => r.id = r'.id → Grows r r')
    (hrun : exec (RunShipping.step chars tryParse header nodeId) (.initial before) es = some s) :
    RowsSaved tryParse nodeId projectOf owner es s := by
  have hshipped : ∀ id, RunShipped tryParse nodeId before (projectOf (owner id)) (owner id) id (reportsBy (owner id) es) s := by
    intro id
    obtain ⟨apiKey, hkey, hproject⟩ := hkeys (owner id)
    rw [← hproject]
    have hnone : rowOf before id = none := by
      unfold rowOf
      rw [hnew]
      rfl
    exact runShipped_exec hparse hkey hnone (fun e he => (howned e he).spares tryParse id) (hgrows _) hrun
  refine ⟨fun id run hlast => ?_, fun row hrow => ?_, ?_⟩
  · obtain ⟨run', -, hid, hsent, row, hrow, hshows⟩ := (hshipped id).row_some hparse hlast.last
    obtain ⟨hmem, hrowid⟩ := rowOf_some hrow
    exact ⟨row, hmem, hrowid, shows_congr hsent (sentAlike hparse hsent) hshows⟩
  · have hfound := rowOf_mem hrow
    cases hlast : lastRecord tryParse row.id (s.handled (owner row.id)) with
    | none =>
      rw [(hshipped row.id).row_none hlast] at hfound
      cases hfound
    | some r =>
      obtain ⟨run, hreported, hid, hsent, row', hrow', hshows⟩ := (hshipped row.id).row_some hparse hlast
      rw [hfound] at hrow'
      obtain rfl := Option.some.inj hrow'
      exact ⟨run, ⟨hreported, hid, by rw [hlast, hsent]⟩, hshows⟩
  · refine exec_inv (fun s => ErrorsSaid s.db.tables.jobRuns) (fun _ _ _ => errorsSaid_step) ?_ hrun
    intro row hrow
    rw [RunShipping.initial, hnew] at hrow
    cases hrow

/-- Counting rows is counting the runs they show. -/
theorem RowsSaved.count (hs : RowsSaved tryParse nodeId projectOf owner es s) {p : JobRun → Bool}
    {q : Guid → ReportedRun → Prop}
    (hpq : ∀ row run, Shows (projectOf (owner row.id)) (nodeId (owner row.id)) run row →
      (p row = true ↔ q (projectOf (owner row.id)) run)) :
    s.db.tables.jobRuns.countP p =
      {id | ∃ run, LastSaved tryParse nodeId owner es s id run ∧ q (projectOf (owner id)) run}.ncard := by
  refine (ncard_keys s.db.runs_nodup fun id => ⟨?_, ?_⟩).symm
  · rintro ⟨run, hlast, hq⟩
    obtain ⟨row, hrow, rfl, hshows⟩ := hs.row id run hlast
    exact ⟨row, hrow, rfl, (hpq row run hshows).2 hq⟩
  · rintro ⟨row, hrow, rfl, hp⟩
    obtain ⟨run, hlast, hshows⟩ := hs.saved row hrow
    exact ⟨run, hlast, (hpq row run hshows).1 hp⟩

theorem RowsSaved.summary (hs : RowsSaved tryParse nodeId projectOf owner es s) {row : JobRun} {run : ReportedRun}
    {projectId : Guid} {node : Text} (hrow : row ∈ s.db.tables.jobRuns) (hid : run.id = row.id) (hshows : Shows projectId node run row) :
    row.summary = run.summary node := by
  have herror : row.errorMessage.isSome = decide (run.run.errorMessage.getD "" ≠ "") := by
    have hsaid := hs.errors row hrow
    have hmessage := hshows.errorMessage
    cases hm : row.errorMessage with
    | none =>
      rw [hm, Option.getD_none] at hmessage
      simp [String.toList_eq_nil_iff.1 hmessage.symm]
    | some message =>
      rw [hm] at hsaid hmessage
      have hne : message ≠ [] := fun he => hsaid (congrArg some he)
      simp only [Option.getD_some] at hmessage
      have htext : run.run.errorMessage.getD "" ≠ "" := by
        intro hempty
        rw [hempty] at hmessage
        exact hne hmessage
      simp [htext]
  unfold JobRun.summary ReportedRun.summary ReportedRun.state
  rw [hid, hshows.jobName, hshows.nodeId, hshows.state, hshows.triggerSource, hshows.createdAt, hshows.startedAt,
    hshows.finishedAt, herror]

theorem wantedRow_iff {projectId project : Guid} {node : Text} {job state : Option Text} {row : JobRun} {run : ReportedRun}
    (h : Shows project node run row) :
    wantedRow chars projectId job state row = true ↔ project = projectId ∧ run.Wanted chars job state := by
  unfold wantedRow ReportedRun.Wanted ReportedRun.state
  rw [h.projectId, h.jobName, h.state, Bool.and_eq_true, Bool.and_eq_true, decide_eq_true_eq, and_assoc]

theorem stateName_running (state : Runtime.JobRunState) :
    (Persistence.stateName state).toList = KpiEndpoints.running ↔ state = .running := by
  cases state <;> decide

/-- In every run of any number of processes that report and flush, on a dashboard
that starts without runs: a run list has the runs whose last snapshot saved
passes the filters, as that snapshot has them, each once, the newest in front
and none left out before the page is full; and the key figures of the day and
of the moment count them, each run in one state. -/
theorem views_show_reports (chars : CharTable) (tryParse : Text → Option Guid) (header : Nat → Option Text) (nodeId : Nat → Text)
    (hparse : ∀ g, tryParse (guidText g).toList = some g) (before : IngestDb) (hnew : before.tables.jobRuns = [])
    (projectOf : Nat → Guid)
    (hkeys : ∀ i, ∃ apiKey, resolveAsync chars before.tables (header i) = .ok apiKey ∧ apiKey.projectId = projectOf i)
    (owner : Guid → Nat) (es : List RunShippingEvent) (howned : ∀ e ∈ es, e.Owned owner)
    (hgrows : ∀ i, (reportsBy i es).Pairwise fun r r' => r.id = r'.id → Grows r r') (s : RunShipping)
    (hrun : exec (RunShipping.step chars tryParse header nodeId) (.initial before) es = some s) :
    let saved := LastSaved tryParse nodeId owner es s
    (∀ projectId job state take,
      let shown := getRunsAsync chars s.db.tables projectId job state take
      let wanted (id : Guid) (run : ReportedRun) := saved id run ∧ projectOf (owner id) = projectId ∧ run.Wanted chars job state
      (∀ x ∈ shown, ∃ run, wanted x.id run ∧ x = run.summary (nodeId (owner x.id))) ∧
        (shown.map RunSummary.id).Nodup ∧ (shown.Pairwise fun x y => y.createdAt ≤ x.createdAt) ∧
        shown.length = min (pageSize take) {id | ∃ run, wanted id run}.ncard ∧
        ∀ id run, wanted id run → id ∉ shown.map RunSummary.id → ∀ x ∈ shown, run.run.createdAt ≤ x.createdAt) ∧
    (∀ projectId now now',
      let kpis := KpiEndpoints.projectAsync s.db.tables projectId now now'
      kpis.running = {id | ∃ run, saved id run ∧ projectOf (owner id) = projectId ∧ run.run.state = .running}.ncard ∧
        (kpis.runs24h.map Prod.fst).Nodup ∧
        ∀ state n, (state, n) ∈ kpis.runs24h ↔ n ≠ 0 ∧ n = {id | ∃ run, saved id run ∧ projectOf (owner id) = projectId ∧
          KpiEndpoints.since now ≤ run.run.createdAt ∧ run.state = state}.ncard) ∧
    ∀ projects now now',
      let kpis := KpiEndpoints.globalAsync projects s.db.tables now now'
      kpis.running = {id | ∃ run, saved id run ∧ run.run.state = .running}.ncard ∧ (kpis.runs24h.map Prod.fst).Nodup ∧
        ∀ state n, (state, n) ∈ kpis.runs24h ↔
          n ≠ 0 ∧ n = {id | ∃ run, saved id run ∧ KpiEndpoints.since now ≤ run.run.createdAt ∧ run.state = state}.ncard := by
  intro saved
  have hs := rowsSaved_exec hparse hkeys hnew howned hgrows hrun
  refine ⟨fun projectId job state take => ?_, fun projectId now now' => ?_, fun projects now now' => ?_⟩
  · have hlist := @getRunsAsync_lists chars s.db projectId job state take
    refine ⟨fun x hx => ?_, hlist.once, hlist.newest, ?_, fun id run hwanted hout x hx => ?_⟩
    · obtain ⟨row, hrow, hpass, rfl⟩ := hlist.row x hx
      obtain ⟨run, hlast, hshows⟩ := hs.saved row hrow
      exact ⟨run, ⟨hlast, (wantedRow_iff hshows).1 hpass⟩, hs.summary hrow hlast.run_id hshows⟩
    · rw [hlist.length]
      congr 1
      exact hs.count (q := fun project run => project = projectId ∧ run.Wanted chars job state) fun _ _ => wantedRow_iff
    · obtain ⟨hlast, hpass⟩ := hwanted
      obtain ⟨row, hrow, rfl, hshows⟩ := hs.row id run hlast
      rw [← hshows.createdAt]
      exact hlist.rest row hrow ((wantedRow_iff hshows).2 hpass) (fun hshown => hout (List.mem_map.2 ⟨_, hshown, rfl⟩)) x hx
  · refine ⟨?_, nodup_countBy _ _, fun state n => ?_⟩
    · refine hs.count (q := fun project run => project = projectId ∧ run.run.state = .running) fun row run hshows => ?_
      rw [decide_eq_true_eq, hshows.projectId, hshows.state, stateName_running]
    · refine mem_countBy.trans (and_congr_right fun _ => ?_)
      rw [List.countP_filter]
      rw [hs.count (q := fun project run => project = projectId ∧ KpiEndpoints.since now ≤ run.run.createdAt ∧ run.state = state)
        fun row run hshows => ?_]
      simp only [Bool.and_eq_true, decide_eq_true_eq]
      rw [hshows.projectId, hshows.state, hshows.createdAt, ReportedRun.state, and_comm, and_assoc]
  · refine ⟨?_, nodup_countBy _ _, fun state n => ?_⟩
    · refine hs.count (q := fun _ run => run.run.state = .running) fun row run hshows => ?_
      rw [decide_eq_true_eq, hshows.state, stateName_running]
    · refine mem_countBy.trans (and_congr_right fun _ => ?_)
      rw [List.countP_filter]
      rw [hs.count (q := fun _ run => KpiEndpoints.since now ≤ run.run.createdAt ∧ run.state = state) fun row run hshows => ?_]
      simp only [Bool.and_eq_true, decide_eq_true_eq]
      rw [hshows.state, hshows.createdAt, ReportedRun.state, and_comm]

end Views

/-! ## Two processes, two projects -/

def newDashboard : IngestDb where
  tables := { twoTenants.tables with jobRuns := [] }
  keyed := by decide +kernel

def runningOther : ReportedRun where
  run := ⟨8, "sync", 90, some 95, none, .running, "Manual", none, none⟩
  id_lt := by decide
  createdAt := by decide
  startedAt := by decide
  finishedAt := by decide

/-- The second report of the first process comes while its first is on its way, and a process of the other project reports too. -/
def twoProcesses : List RunShippingEvent :=
  [.reportRun 0 pendingSync, .turn 0 .wake, .turn 0 .tryRead, .turn 0 .tryRead, .reportRun 1 runningOther, .reportRun 0 runningSync,
    .sendRuns 0 tenantEnv true .delivered, .turn 0 .delayEnds, .turn 0 .wake, .turn 0 .tryRead, .turn 0 .tryRead, .turn 1 .wake,
    .turn 1 .tryRead, .turn 1 .tryRead, .sendRuns 1 tenantEnv true .delivered, .sendRuns 0 tenantEnv true .delivered]

def keyOf (i : Nat) : Option Text := some (if i = 0 then "k1".toList else "k2".toList)

def projectOfKey (i : Nat) : Guid := if i = 0 then 1 else 2

def ownerOf (id : Guid) : Nat := if id = 7 then 0 else 1

def runTwoProcesses : Option RunShipping :=
  exec (RunShipping.step ascii tryParseHyphenated keyOf (keyAndNode "n")) (.initial newDashboard) twoProcesses

theorem keyOf_resolves (i : Nat) :
    ∃ apiKey, resolveAsync ascii newDashboard.tables (keyOf i) = .ok apiKey ∧ apiKey.projectId = projectOfKey i := by
  unfold keyOf projectOfKey
  split
  · exact ⟨⟨11, 1, "k1".toList, [], 0, none⟩, by decide +kernel, rfl⟩
  · exact ⟨⟨12, 2, "k2".toList, [], 0, none⟩, by decide +kernel, rfl⟩

theorem twoProcesses_owned : ∀ e ∈ twoProcesses, e.Owned ownerOf := by
  intro e he
  fin_cases he <;> trivial

theorem twoProcesses_grows (i : Nat) : (reportsBy i twoProcesses).Pairwise fun r r' => r.id = r'.id → Grows r r' := by
  rcases i with _ | _ | i
  · have hreports : reportsBy 0 twoProcesses = [pendingSync, runningSync] := rfl
    rw [hreports]
    exact List.pairwise_pair.2 fun _ =>
      { createdAt := rfl, startedAt := nofun, finishedAt := nofun, errorMessage := by decide, errorStackTrace := by decide }
  · have hreports : reportsBy 1 twoProcesses = [runningOther] := rfl
    rw [hreports]
    exact List.pairwise_singleton _ _
  · have hreports : reportsBy (i + 2) twoProcesses = [] := by simp [reportsBy, twoProcesses, RunShippingEvent.report]
    rw [hreports]
    exact List.Pairwise.nil

theorem views_show_twoProcesses : ∃ s, runTwoProcesses = some s ∧
    {id | ∃ run, LastSaved tryParseHyphenated (keyAndNode "n") ownerOf twoProcesses s id run ∧
      projectOfKey (ownerOf id) = 1 ∧ run.run.state = .running}.ncard = 1 := by
  have hsome : runTwoProcesses.isSome = true := by decide +kernel
  have hall : runTwoProcesses.all (fun s => (KpiEndpoints.projectAsync s.db.tables 1 100 100).running = 1) = true := by
    decide +kernel
  obtain ⟨s, hs⟩ := Option.isSome_iff_exists.1 hsome
  rw [hs] at hall
  obtain ⟨-, hproject, -⟩ := views_show_reports ascii tryParseHyphenated keyOf (keyAndNode "n") tryParse_guidText newDashboard rfl
    projectOfKey keyOf_resolves ownerOf twoProcesses twoProcesses_owned twoProcesses_grows s hs
  exact ⟨s, hs, (hproject 1 100 100).1.symm.trans (of_decide_eq_true hall)⟩

end DuckRun.Reporting
