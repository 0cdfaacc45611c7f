import DuckRun.Dashboard.RunUpserts
import DuckRun.Dashboard.Tenants
import DuckRun.Lib.Grouping
/-!
# Console lines on the dashboard

`SendLogs` adds a row for every entry whose run id parses, and the database
numbers the rows as they are saved; the console of a run is its rows in the
order of these numbers. So a call that is saved puts its lines, in their order,
behind what the console showed before, and no other call moves a line.
-/

namespace DuckRun.Dashboard

open DuckRun.Lib

structure ConsoleLineJson where
  timestamp : DateTime
  level : Text
  message : Text
  deriving DecidableEq, Repr

def ConsoleLog.json (c : ConsoleLog) : ConsoleLineJson := ⟨c.timestamp, c.level, c.message⟩

/-- `GetConsoleAsync`. -/
def getConsoleAsync (t : IngestTables) (id runId : Guid) : List ConsoleLineJson :=
  ((OrderBy.linear Int).sort ConsoleLog.id (t.consoleLogs.filter fun c => c.projectId = id && c.runId = runId)).map ConsoleLog.json

/-- The line a row is in the console of a run. -/
def ConsoleLog.line (projectId runId : Guid) (c : ConsoleLog) : Option ConsoleLineJson :=
  if c.projectId = projectId ∧ c.runId = runId then some c.json else none

/-- The line an entry brings to the console of a run, at the time it names. -/
def LogEntry.line (tryParse : Text → Option Guid) (runId : Guid) (e : LogEntry) : Option ConsoleLineJson :=
  if tryParse e.runId = some runId then
    match toDateTime? e.timestamp with
    | .ok (some timestamp) => some ⟨timestamp, e.level, e.message⟩
    | _ => none
  else none

/-- The numbers lie below the next one and rise from row to row within a run of a project. -/
structure Numbered (projectId runId : Guid) (t : IngestTables) : Prop where
  below : ∀ c ∈ t.consoleLogs, c.id < t.nextLogId
  rising : (t.consoleLogs.filter fun c => c.projectId = projectId && c.runId = runId).Pairwise fun c c' => c.id < c'.id

theorem getConsoleAsync_eq {projectId runId : Guid} {t : IngestTables} (h : Numbered projectId runId t) :
    getConsoleAsync t projectId runId = t.consoleLogs.filterMap (ConsoleLog.line projectId runId) := by
  have hsort : (OrderBy.linear Int).sort ConsoleLog.id (t.consoleLogs.filter fun c => c.projectId = projectId && c.runId = runId) =
      t.consoleLogs.filter fun c => c.projectId = projectId && c.runId = runId := by
    refine OrderBy.sort_eq _ (fun a b => le_antisymm) (List.Perm.refl _) ?_ (h.rising.imp fun hlt => le_of_lt hlt)
    refine List.pairwise_map.2 (h.rising.imp fun hlt => ?_)
    exact ne_of_lt hlt
  unfold getConsoleAsync
  rw [hsort]
  induction t.consoleLogs with
  | nil => rfl
  | cons c rows ih =>
    rw [List.filter_cons, List.filterMap_cons, ConsoleLog.line]
    by_cases hc : c.projectId = projectId ∧ c.runId = runId
    · simp [hc, ih]
    · simp [hc, ih]

/-! ## What a call of `SendLogs` adds -/

section Rows
variable {tryParse : Text → Option Guid} {env : IngestAmbient} {projectId : Guid}

/-- One round adds no row, or the row of its entry. -/
theorem sendLog_cases {added added' : List (Int → ConsoleLog)} {entry : LogEntry} {index : Nat}
    (h : sendLog tryParse env projectId added (entry, index) = .ok added') :
    (tryParse entry.runId = none ∧ added' = added) ∨
      ∃ runId timestamp, tryParse entry.runId = some runId ∧ toDateTime? entry.timestamp = .ok timestamp ∧
        added' = added ++ [fun id => ⟨id, projectId, runId, timestamp.getD (env.clock index), entry.level, entry.message⟩] := by
  unfold sendLog at h
  cases hparse : tryParse entry.runId with
  | none =>
    simp only [hparse] at h
    cases h
    exact .inl ⟨rfl, rfl⟩
  | some runId =>
    simp only [hparse] at h
    obtain ⟨timestamp, htime, h⟩ := except_bind_ok.1 h
    cases h
    exact .inr ⟨runId, timestamp, rfl, htime, rfl⟩

/-- What an added row shows does not depend on its number. -/
def Unnumbered (row : Int → ConsoleLog) : Prop := ∀ id, row id = { row 0 with id := id }

/-- The rows of a batch show its entries, as long as the run's entries have their times. -/
theorem sendLog_rows {runId : Guid} {logs : List LogEntry} {index : Nat} {added added' : List (Int → ConsoleLog)}
    (htimes : ∀ e ∈ logs, tryParse e.runId = some runId → e.timestamp ≠ none) (hadded : ∀ row ∈ added, Unnumbered row)
    (h : (logs.zipIdx index).foldlM (sendLog tryParse env projectId) added = .ok added') :
    (∀ row ∈ added', Unnumbered row) ∧
      added'.filterMap (fun row => (row 0).line projectId runId) =
        added.filterMap (fun row => (row 0).line projectId runId) ++ logs.filterMap (LogEntry.line tryParse runId) ∧
      ∀ other, other ≠ projectId → added'.filterMap (fun row => (row 0).line other runId) =
        added.filterMap fun row => (row 0).line other runId := by
  induction logs generalizing index added with
  | nil =>
    cases h
    exact ⟨hadded, (List.append_nil _).symm, fun _ _ => rfl⟩
  | cons e logs ih =>
    rw [List.zipIdx_cons, List.foldlM_cons] at h
    obtain ⟨mid, hone, hrest⟩ := except_bind_ok.1 h
    obtain ⟨htime, htimes⟩ := List.forall_mem_cons.1 htimes
    rcases sendLog_cases hone with ⟨hparse, rfl⟩ | ⟨parsed, timestamp, hparse, hstamp, rfl⟩
    · obtain ⟨hrows, hlines, hothers⟩ := ih htimes hadded hrest
      have hnone : e.line tryParse runId = none := by
        rw [LogEntry.line, hparse, if_neg nofun]
      refine ⟨hrows, ?_, hothers⟩
      rw [hlines, List.filterMap_cons_none hnone]
    · have hmid : ∀ row ∈ added ++ [fun id => (⟨id, projectId, parsed, timestamp.getD (env.clock index), e.level, e.message⟩ :
          ConsoleLog)], Unnumbered row := by
        intro row hrow
        rcases List.mem_append.1 hrow with hrow | hrow
        · exact hadded row hrow
        · rw [List.mem_singleton.1 hrow]
          exact fun _ => rfl
      obtain ⟨hrows, hlines, hothers⟩ := ih htimes hmid hrest
      refine ⟨hrows, ?_, fun other hne => ?_⟩
      · rw [hlines, List.filterMap_append, List.append_assoc, List.filterMap_cons (l := logs)]
        congr 1
        by_cases hrun : parsed = runId
        · subst hrun
          obtain ⟨stamp, hstamp'⟩ := Option.ne_none_iff_exists'.1 (htime hparse)
          rw [hstamp'] at hstamp
          obtain ⟨time, htime', rfl⟩ : ∃ time, toDateTime? (some stamp) = .ok (some time) ∧ timestamp = some time := by
            simp only [toDateTime?] at hstamp ⊢
            cases hconv : stamp.toDateTime with
            | error err =>
              rw [hconv] at hstamp
              cases hstamp
            | ok time =>
              rw [hconv] at hstamp
              cases hstamp
              exact ⟨time, rfl, rfl⟩
          simp [LogEntry.line, ConsoleLog.line, ConsoleLog.json, hparse, hstamp', htime']
        · simp [LogEntry.line, ConsoleLog.line, hparse, hrun]
      · rw [hothers other hne, List.filterMap_append]
        simp [ConsoleLog.line, Ne.symm hne]

/-- What a batch that is saved adds: rows with the next numbers, which show the
lines of the batch in the project's own consoles and nothing in another's. -/
theorem sendLogs_saved {runId : Guid} {t t' : IngestTables} {logs : List LogEntry} {reply : Reply}
    (htimes : ∀ e ∈ logs, tryParse e.runId = some runId → e.timestamp ≠ none)
    (h : sendLogs tryParse env projectId t logs = .ok (t', reply)) :
    ∃ rows, t' = { t with consoleLogs := t.consoleLogs ++ rows, nextLogId := t.nextLogId + rows.length } ∧
      (∀ c ∈ rows, t.nextLogId ≤ c.id ∧ c.id < t.nextLogId + rows.length) ∧ rows.Pairwise (fun c c' => c.id < c'.id) ∧
      rows.filterMap (ConsoleLog.line projectId runId) = logs.filterMap (LogEntry.line tryParse runId) ∧
      ∀ other, other ≠ projectId → rows.filterMap (ConsoleLog.line other runId) = [] := by
  unfold sendLogs at h
  obtain ⟨added, hfold, h⟩ := except_bind_ok.1 h
  cases h
  obtain ⟨hrows, hlines, hothers⟩ := sendLog_rows htimes (by simp) hfold
  have hshown : ∀ project, (added.zipIdx.map fun x => x.1 (t.nextLogId + x.2)).filterMap (ConsoleLog.line project runId) =
      added.filterMap fun row => (row 0).line project runId := by
    intro project
    conv_rhs => rw [← List.zipIdx_map_fst 0 added]
    rw [List.filterMap_map, List.filterMap_map]
    refine List.filterMap_congr fun x hx => ?_
    rw [Function.comp_apply, Function.comp_apply, hrows x.1 (List.fst_mem_of_mem_zipIdx hx) (t.nextLogId + x.2)]
    rfl
  have hid : ∀ x ∈ added.zipIdx, (x.1 (t.nextLogId + x.2)).id = t.nextLogId + x.2 := by
    intro x hx
    rw [hrows x.1 (List.fst_mem_of_mem_zipIdx hx)]
  refine ⟨added.zipIdx.map fun x => x.1 (t.nextLogId + x.2), ?_, ?_, ?_, ?_, ?_⟩
  · simp
  · intro c hc
    obtain ⟨x, hx, rfl⟩ := List.mem_map.1 hc
    obtain ⟨-, hlt, -⟩ := List.mem_zipIdx hx
    rw [hid x hx, List.length_map, List.length_zipIdx]
    omega
  · have hrising : added.zipIdx.Pairwise fun x y => x.2 < y.2 := by
      rw [← List.pairwise_map, List.zipIdx_map_snd]
      exact List.pairwise_lt_range'
    rw [List.pairwise_map]
    refine hrising.imp_of_mem fun {x y} hx hy hlt => ?_
    rw [hid x hx, hid y hy]
    omega
  · rw [hshown, hlines]
    rfl
  · intro other hne
    rw [hshown, hothers other hne]
    rfl

end Rows

/-! ## What any call does to a console -/

/-- The lines a call brings to a run's console. -/
def Call.lines (tryParse : Text → Option Guid) (runId : Guid) : Call → List ConsoleLineJson
  | .sendLogs logs => logs.filterMap (LogEntry.line tryParse runId)
  | _ => []

/-- The run's entries of the call name their times. -/
def Call.Timed (tryParse : Text → Option Guid) (runId : Guid) : Call → Prop
  | .sendLogs logs => ∀ e ∈ logs, tryParse e.runId = some runId → e.timestamp ≠ none
  | _ => True

section Calls
variable {chars : CharTable} {tryParse : Text → Option Guid} {env : IngestAmbient}

theorem resolveAsync_error {t : IngestTables} {header : Option Text} {reply : Reply}
    (h : resolveAsync chars t header = .error reply) : reply.succeeded = false := by
  unfold resolveAsync at h
  split at h
  · cases h
    rfl
  · split at h <;> cases h <;> rfl

/-- A call through the interceptor saves nothing, or saves what it made of the rows. -/
theorem unaryServerHandler_cases (accepted : Bool) (db : IngestDb) (header : Option Text) (call : Call) :
    ((unaryServerHandler chars tryParse env accepted db header call).1.succeeded = false ∧
        (unaryServerHandler chars tryParse env accepted db header call).2 = db) ∨
      ∃ apiKey, resolveAsync chars db.tables header = .ok apiKey ∧
        (unaryServerHandler chars tryParse env accepted db header call).1.succeeded = true ∧
        run chars tryParse env apiKey.projectId db.tables call =
          .ok ((unaryServerHandler chars tryParse env accepted db header call).2.tables,
            (unaryServerHandler chars tryParse env accepted db header call).1) := by
  unfold unaryServerHandler
  cases hkey : resolveAsync chars db.tables header with
  | error e => exact .inl ⟨resolveAsync_error hkey, rfl⟩
  | ok apiKey =>
    simp only [Except.bind, resolveProject]
    cases hrun : run chars tryParse env apiKey.projectId db.tables call with
    | error e => exact .inl ⟨rfl, rfl⟩
    | ok result =>
      obtain ⟨t, reply⟩ := result
      dsimp only
      cases hsaved : IngestDb.saveChanges accepted t with
      | none => exact .inl ⟨rfl, rfl⟩
      | some db' =>
        refine .inr ⟨apiKey, rfl, run_succeeds hrun, ?_⟩
        rw [IngestDb.saveChanges_some hsaved, hrun]

theorem run_apiKeys {projectId : Guid} {t t' : IngestTables} {call : Call} {reply : Reply}
    (h : run chars tryParse env projectId t call = .ok (t', reply)) : t'.apiKeys = t.apiKeys := by
  cases call with
  | handshake request =>
    simp only [run, handshake] at h
    obtain ⟨_, -, h⟩ := except_bind_ok.1 h
    obtain ⟨_, -, h⟩ := except_bind_ok.1 h
    obtain ⟨_, -, h⟩ := except_bind_ok.1 h
    cases h
    rfl
  | sendHeartbeat request =>
    simp only [run, sendHeartbeat] at h
    obtain ⟨_, -, h⟩ := except_bind_ok.1 h
    obtain ⟨_, -, h⟩ := except_bind_ok.1 h
    cases h
    rfl
  | sendRuns runs =>
    obtain ⟨_, -, rfl⟩ := sendRuns_saved h
    rfl
  | sendLogs logs =>
    simp only [run, sendLogs] at h
    obtain ⟨_, -, h⟩ := except_bind_ok.1 h
    cases h
    rfl

/-- No call of the service touches the keys. -/
theorem unaryServerHandler_apiKeys (accepted : Bool) (db : IngestDb) (header : Option Text) (call : Call) :
    (unaryServerHandler chars tryParse env accepted db header call).2.tables.apiKeys = db.tables.apiKeys := by
  rcases @unaryServerHandler_cases chars tryParse env accepted db header call with ⟨-, hdb⟩ | ⟨apiKey, -, -, hrun⟩
  · rw [hdb]
  · exact run_apiKeys hrun

/-- The other calls leave the console rows alone. -/
theorem run_consoleLogs {projectId : Guid} {t t' : IngestTables} {call : Call} {reply : Reply}
    (h : run chars tryParse env projectId t call = .ok (t', reply)) (hc : ∀ logs, call ≠ .sendLogs logs) :
    t'.consoleLogs = t.consoleLogs ∧ t'.nextLogId = t.nextLogId := by
  cases call with
  | handshake request =>
    simp only [run, handshake] at h
    obtain ⟨_, -, h⟩ := except_bind_ok.1 h
    obtain ⟨_, -, h⟩ := except_bind_ok.1 h
    obtain ⟨_, -, h⟩ := except_bind_ok.1 h
    cases h
    exact ⟨rfl, rfl⟩
  | sendHeartbeat request =>
    simp only [run, sendHeartbeat] at h
    obtain ⟨_, -, h⟩ := except_bind_ok.1 h
    obtain ⟨_, -, h⟩ := except_bind_ok.1 h
    cases h
    exact ⟨rfl, rfl⟩
  | sendRuns runs =>
    obtain ⟨_, -, rfl⟩ := sendRuns_saved h
    exact ⟨rfl, rfl⟩
  | sendLogs logs => exact absurd rfl (hc logs)

variable {projectId runId : Guid}

/-- Rows that are saved behind the others keep the numbers rising. -/
theorem numbered_append {t : IngestTables} {rows : List ConsoleLog} (hn : Numbered projectId runId t)
    (hids : ∀ c ∈ rows, t.nextLogId ≤ c.id ∧ c.id < t.nextLogId + rows.length)
    (hrising : rows.Pairwise fun c c' => c.id < c'.id) :
    Numbered projectId runId
      { t with consoleLogs := t.consoleLogs ++ rows, nextLogId := t.nextLogId + rows.length } where
  below c hc := by
    rcases List.mem_append.1 hc with hc | hc
    · have hbelow := hn.below c hc
      dsimp only
      omega
    · exact (hids c hc).2
  rising := by
    rw [List.filter_append, List.pairwise_append]
    refine ⟨hn.rising, hrising.filter _, fun c hc c' hc' => ?_⟩
    have hbelow := hn.below c (List.mem_filter.1 hc).1
    have habove := (hids c' (List.mem_filter.1 hc').1).1
    omega

/-- After a call a console shows what it showed before, and where the call is
answered under a key of the project, the lines of the call behind it. -/
theorem console_after_call {accepted : Bool} {db : IngestDb} {header : Option Text} {call : Call}
    (hn : Numbered projectId runId db.tables) (htimed : call.Timed tryParse runId) :
    let result := unaryServerHandler chars tryParse env accepted db header call
    Numbered projectId runId result.2.tables ∧
      ((result.1.succeeded = true ∧ (∃ apiKey, resolveAsync chars db.tables header = .ok apiKey ∧ apiKey.projectId = projectId) ∧
          getConsoleAsync result.2.tables projectId runId = getConsoleAsync db.tables projectId runId ++ call.lines tryParse runId) ∨
        (¬ (result.1.succeeded = true ∧ ∃ apiKey, resolveAsync chars db.tables header = .ok apiKey ∧ apiKey.projectId = projectId) ∧
          getConsoleAsync result.2.tables projectId runId = getConsoleAsync db.tables projectId runId)) := by
  intro result
  rcases @unaryServerHandler_cases chars tryParse env accepted db header call with ⟨hfailed, hdb⟩ | ⟨apiKey, hkey, hsucceeded, hrun⟩
  · have hsame : result.2 = db := hdb
    rw [hsame]
    refine ⟨hn, .inr ⟨?_, rfl⟩⟩
    rintro ⟨hok, -⟩
    rw [hfailed] at hok
    cases hok
  · have hrun' : run chars tryParse env apiKey.projectId db.tables call = .ok (result.2.tables, result.1) := hrun
    have hiff : (∃ apiKey', resolveAsync chars db.tables header = .ok apiKey' ∧ apiKey'.projectId = projectId) ↔
        apiKey.projectId = projectId := by
      rw [hkey]
      simp
    rw [hiff]
    by_cases hlogs : ∃ logs, call = .sendLogs logs
    · obtain ⟨logs, rfl⟩ := hlogs
      obtain ⟨rows, htables, hids, hrising, hlines, hothers⟩ := sendLogs_saved htimed hrun'
      have hn' := numbered_append hn hids hrising
      rw [← htables] at hn'
      have hshown : getConsoleAsync result.2.tables projectId runId =
          getConsoleAsync db.tables projectId runId ++ rows.filterMap (ConsoleLog.line projectId runId) := by
        rw [getConsoleAsync_eq hn', getConsoleAsync_eq hn, htables, List.filterMap_append]
      refine ⟨hn', ?_⟩
      by_cases hproject : apiKey.projectId = projectId
      · subst hproject
        exact .inl ⟨hsucceeded, rfl, hshown.trans (congrArg _ hlines)⟩
      · refine .inr ⟨fun hboth => hproject hboth.2, ?_⟩
        rw [hshown, hothers projectId (Ne.symm hproject), List.append_nil]
    · obtain ⟨hrows, hnext⟩ := run_consoleLogs hrun' fun logs he => hlogs ⟨logs, he⟩
      have hnone : call.lines tryParse runId = [] := by
        cases call with
        | sendLogs logs => exact absurd ⟨logs, rfl⟩ hlogs
        | handshake | sendHeartbeat | sendRuns => rfl
      have hsame : getConsoleAsync result.2.tables projectId runId = getConsoleAsync db.tables projectId runId := by
        unfold getConsoleAsync
        rw [hrows]
      refine ⟨⟨?_, ?_⟩, ?_⟩
      · rw [hrows, hnext]
        exact hn.below
      · rw [hrows]
        exact hn.rising
      · rw [hnone, List.append_nil]
        by_cases hproject : apiKey.projectId = projectId
        · exact .inl ⟨hsucceeded, hproject, hsame⟩
        · exact .inr ⟨fun hboth => hproject hboth.2, hsame⟩

end Calls

end DuckRun.Dashboard
