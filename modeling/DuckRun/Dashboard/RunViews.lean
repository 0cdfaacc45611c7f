import DuckRun.Dashboard.ConsoleLines
import DuckRun.Dashboard.Registrations
import DuckRun.Lib.Pages
/-!
# Run lists and key figures

`GetRunsAsync` and the two KPI endpoints read the tables as they stand. A run
list is a page of the project's rows with the newest in front; the figures count
rows.
-/

namespace DuckRun.Dashboard

open DuckRun.Lib

/-! ## The run list -/

structure RunSummary where
  id : Guid
  jobName : Text
  nodeId : Text
  state : Text
  triggerSource : Text
  createdAt : DateTime
  startedAt : Option DateTime
  finishedAt : Option DateTime
  hasError : Bool
  deriving DecidableEq, Repr

def JobRun.summary (r : JobRun) : RunSummary :=
  ⟨r.id, r.jobName, r.nodeId, r.state, r.triggerSource, r.createdAt, r.startedAt, r.finishedAt, r.errorMessage.isSome⟩

/-- `Math.Clamp(take, 1, 500)`. -/
def pageSize (take : Int) : Nat := (max 1 (min take 500)).toNat

section Runs
variable (chars : CharTable)

/-- A filter of the query string, left out when it is blank. -/
def passes (wanted : Option Text) (text : Text) : Bool := isNullOrWhiteSpace chars wanted || decide (wanted = some text)

/-- `GetRunsAsync`. -/
def getRunsAsync (t : IngestTables) (id : Guid) (job state : Option Text) (take : Int) : List RunSummary :=
  let query := t.jobRuns.filter fun r => r.projectId = id
  let query := if isNullOrWhiteSpace chars job then query else query.filter fun r => job = some r.jobName
  let query := if isNullOrWhiteSpace chars state then query else query.filter fun r => state = some r.state
  ((OrderBy.descending Int).page JobRun.createdAt (pageSize take) query).map JobRun.summary

end Runs

/-! ## Key figures -/

namespace KpiEndpoints

def running : Text := "Running".toList

/-- `now.AddHours(-24)`, in ticks. -/
def since (now : DateTime) : DateTime := now - 864000000000

/-- `now.AddMinutes(-1)`. -/
def nodeAliveCutoff (now : DateTime) : DateTime := now - 600000000

structure GlobalKpis where
  totalProjects : Nat
  totalJobs : Nat
  activeNodes : Nat
  running : Nat
  runs24h : List (Text × Nat)
  deriving DecidableEq, Repr

structure ProjectKpis where
  jobs : Nat
  nodesAlive : Nat
  nodesTotal : Nat
  leader : Option Text
  running : Nat
  runs24h : List (Text × Nat)
  deriving DecidableEq, Repr

/-- `GlobalAsync`, with its two readings of the clock. -/
def globalAsync (projects : List Project) (t : IngestTables) (now now' : DateTime) : GlobalKpis where
  totalProjects := projects.length
  totalJobs := t.jobDefinitions.length
  activeNodes := t.nodeHeartbeats.countP fun n => nodeAliveCutoff now' ≤ n.lastSeen
  running := t.jobRuns.countP fun r => r.state = running
  runs24h := countBy JobRun.state (t.jobRuns.filter fun r => since now ≤ r.createdAt)

/-- `ProjectAsync`. The leader is the first row the database comes upon. -/
def projectAsync (t : IngestTables) (id : Guid) (now now' : DateTime) : ProjectKpis where
  jobs := t.jobDefinitions.countP fun j => j.projectId = id
  nodesAlive := t.nodeHeartbeats.countP fun n => n.projectId = id ∧ nodeAliveCutoff now' ≤ n.lastSeen
  nodesTotal := t.nodeHeartbeats.countP fun n => n.projectId = id
  leader := (t.nodeHeartbeats.find? fun n => n.projectId = id && n.isLeader && nodeAliveCutoff now' ≤ n.lastSeen).map
    NodeHeartbeat.nodeId
  running := t.jobRuns.countP fun r => r.projectId = id ∧ r.state = running
  runs24h := countBy JobRun.state (t.jobRuns.filter fun r => r.projectId = id ∧ since now ≤ r.createdAt)

end KpiEndpoints

/-! ## What they show of the tables -/

section Views
variable {chars : CharTable} {t : IngestTables} {projectId : Guid}

/-- The rows a run list is taken from. -/
def wantedRow (chars : CharTable) (projectId : Guid) (job state : Option Text) (r : JobRun) : Bool :=
  r.projectId = projectId && passes chars job r.jobName && passes chars state r.state

theorem filter_passes {α : Type} (wanted : Option Text) (column : α → Text) (rows : List α) :
    (if isNullOrWhiteSpace chars wanted then rows else rows.filter fun r => wanted = some (column r)) =
      rows.filter fun r => passes chars wanted (column r) := by
  unfold passes
  split
  · rename_i hblank
    simp [hblank]
  · rename_i hgiven
    simp [Bool.eq_false_iff.2 hgiven]

theorem getRunsAsync_eq (job state : Option Text) (take : Int) : getRunsAsync chars t projectId job state take =
    ((OrderBy.descending Int).page JobRun.createdAt (pageSize take) (t.jobRuns.filter (wantedRow chars projectId job state))).map
      JobRun.summary := by
  unfold getRunsAsync
  dsimp only
  rw [filter_passes job JobRun.jobName, filter_passes state JobRun.state, List.filter_filter, List.filter_filter]
  congr 2
  refine List.filter_congr fun r _ => ?_
  unfold wantedRow
  ac_rfl

theorem IngestDb.runs_nodup (db : IngestDb) : (db.tables.jobRuns.map JobRun.id).Nodup := by
  have hk := db.keyed
  simp only [IngestTables.keysOk, Bool.and_eq_true, decide_eq_true_eq] at hk
  exact hk.1.1.1.1.1.1.1

/-- A run list: the rows with the newest in front, each once, as many as were asked for. -/
structure ListsRuns (chars : CharTable) (t : IngestTables) (projectId : Guid) (job state : Option Text) (take : Int)
    (shown : List RunSummary) : Prop where
  row : ∀ x ∈ shown, ∃ r ∈ t.jobRuns, wantedRow chars projectId job state r = true ∧ r.summary = x
  once : (shown.map RunSummary.id).Nodup
  newest : shown.Pairwise fun x y => y.createdAt ≤ x.createdAt
  length : shown.length = min (pageSize take) (t.jobRuns.countP (wantedRow chars projectId job state))
  rest : ∀ r ∈ t.jobRuns, wantedRow chars projectId job state r = true → r.summary ∉ shown → ∀ x ∈ shown, r.createdAt ≤ x.createdAt

theorem getRunsAsync_lists (db : IngestDb) (projectId : Guid) (job state : Option Text) (take : Int) :
    ListsRuns chars db.tables projectId job state take (getRunsAsync chars db.tables projectId job state take) := by
  rw [getRunsAsync_eq]
  refine { row := fun x hx => ?_, once := ?_, newest := ?_, length := ?_, rest := fun r hr hwanted hout x hx => ?_ }
  · obtain ⟨r, hr, rfl⟩ := List.mem_map.1 hx
    obtain ⟨hrow, hwanted⟩ := List.mem_filter.1 ((OrderBy.descending Int).mem_of_mem_page hr)
    exact ⟨r, hrow, hwanted, rfl⟩
  · rw [List.map_map]
    exact (OrderBy.descending Int).nodup_page _ _ (db.runs_nodup.sublist (List.filter_sublist.map _))
  · rw [List.pairwise_map]
    exact (OrderBy.descending Int).sorted_page _ _ _
  · rw [List.length_map, OrderBy.length_page, List.countP_eq_length_filter]
  · obtain ⟨y, hy, rfl⟩ := List.mem_map.1 hx
    refine (OrderBy.descending Int).page_first (List.mem_filter.2 ⟨hr, hwanted⟩) (fun hpage => ?_) hy
    exact hout (List.mem_map_of_mem hpage)

/-- A row without an error message has none, not an empty one. -/
def ErrorsSaid (rows : List JobRun) : Prop := ∀ r ∈ rows, r.errorMessage ≠ some []

theorem nullIfEmpty_ne (s : Text) : nullIfEmpty s ≠ some [] := by
  unfold nullIfEmpty
  split
  · exact nofun
  · rename_i hne
    exact fun h => hne (Option.some.inj h)

theorem or_nullIfEmpty_ne {stored : Option Text} (s : Text) (h : stored ≠ some []) : (nullIfEmpty s).or stored ≠ some [] := by
  have hs := nullIfEmpty_ne s
  cases hmessage : nullIfEmpty s with
  | none => exact h
  | some message =>
    rw [hmessage] at hs
    exact hs

variable {tryParse : Text → Option Guid} {env : IngestAmbient} {now : DateTime}

theorem sendRun_errorsSaid {set set' : EntitySet JobRun} {r : RunRecord} {index : Nat} (hs : ErrorsSaid set.saved)
    (h : sendRun tryParse env projectId now set (r, index) = .ok set') : ErrorsSaid set'.saved := by
  unfold sendRun at h
  cases hparse : tryParse r.id with
  | none =>
    simp only [hparse] at h
    cases h
    exact hs
  | some runId =>
    simp only [hparse] at h
    split at h
    · obtain ⟨createdAt, -, h⟩ := except_bind_ok.1 h
      obtain ⟨startedAt, -, h⟩ := except_bind_ok.1 h
      obtain ⟨finishedAt, -, h⟩ := except_bind_ok.1 h
      cases h
      intro row hrow
      rw [EntitySet.saved_add] at hrow
      rcases List.mem_append.1 hrow with hrow | hrow
      · exact hs row hrow
      · rw [List.mem_singleton.1 hrow]
        exact nullIfEmpty_ne _
    · obtain ⟨startedAt, -, h⟩ := except_bind_ok.1 h
      obtain ⟨finishedAt, -, h⟩ := except_bind_ok.1 h
      cases h
      intro row hrow
      rw [EntitySet.saved_modify, updateKey] at hrow
      obtain ⟨old, hold, rfl⟩ := List.mem_map.1 hrow
      split
      · exact or_nullIfEmpty_ne _ (hs old hold)
      · exact hs old hold

theorem errorsSaid_call {accepted : Bool} {db : IngestDb} {header : Option Text} {call : Call} (hs : ErrorsSaid db.tables.jobRuns) :
    ErrorsSaid (unaryServerHandler chars tryParse env accepted db header call).2.tables.jobRuns := by
  rcases @unaryServerHandler_cases chars tryParse env accepted db header call with ⟨-, hsame⟩ | ⟨apiKey, -, -, hrun⟩
  · rwa [hsame]
  · cases call with
    | handshake request =>
      unfold run handshake at hrun
      obtain ⟨_, -, hrun⟩ := except_bind_ok.1 hrun
      obtain ⟨_, -, hrun⟩ := except_bind_ok.1 hrun
      obtain ⟨_, -, hrun⟩ := except_bind_ok.1 hrun
      rwa [← (Prod.mk.inj (Except.ok.inj hrun)).1]
    | sendHeartbeat request =>
      unfold run sendHeartbeat at hrun
      obtain ⟨_, -, hrun⟩ := except_bind_ok.1 hrun
      obtain ⟨_, -, hrun⟩ := except_bind_ok.1 hrun
      rwa [← (Prod.mk.inj (Except.ok.inj hrun)).1]
    | sendLogs logs =>
      unfold run sendLogs at hrun
      obtain ⟨_, -, hrun⟩ := except_bind_ok.1 hrun
      rwa [← (Prod.mk.inj (Except.ok.inj hrun)).1]
    | sendRuns runs =>
      obtain ⟨set, hfold, htables⟩ := sendRuns_saved hrun
      rw [htables]
      refine foldlM_inv (fun set => ErrorsSaid set.saved) (fun _ _ _ _ hset hone => sendRun_errorsSaid hset hone) ?_ hfold
      rwa [EntitySet.saved_open]

end Views

end DuckRun.Dashboard
