import DuckRun.Reporting.FlushLoop
import DuckRun.Dashboard.RunUpserts
import DuckRun.Dashboard.Tenants
import DuckRun.Persistence.JobRunStore
/-!
# Reporting runs to the dashboard

`ReportRun` turns the run into a record at once and puts it into the channel;
`FlushRunsAsync` sends the records in batches; `SendRuns` of the dashboard
upserts them. As long as the sends succeed, the rows follow the reports: where
nothing is left to send, each run's row is its last snapshot.
-/

namespace DuckRun.Reporting

open DuckRun.Lib DuckRun.Dashboard

/-! ## Records -/

/-- The range of `DateTimeOffset.UtcTicks`. -/
def InRange (t : Runtime.Instant) : Prop := 0 ≤ t ∧ t ≤ 3155378975999999999

instance (t : Runtime.Instant) : Decidable (InRange t) := inferInstanceAs (Decidable (_ ∧ _))

/-- A run as .NET can hold it: its times are `DateTimeOffset`s, its id is a `Guid`. -/
structure ReportedRun where
  run : Runtime.JobRun
  id_lt : run.id < 2 ^ 128
  createdAt : InRange run.createdAt
  startedAt : ∀ t ∈ run.startedAt, InRange t
  finishedAt : ∀ t ∈ run.finishedAt, InRange t

def ReportedRun.id (r : ReportedRun) : Guid := BitVec.ofNat 128 r.run.id

/-- `Timestamp.FromDateTimeOffset`. -/
def fromDateTimeOffset (t : Runtime.Instant) : Timestamp := ⟨t / 10000000 - 62135596800, t % 10000000 * 100⟩

def toProto (nodeId : Text) (r : ReportedRun) : RunRecord where
  id := (guidText r.id).toList
  jobName := r.run.jobName.toList
  nodeId := nodeId
  createdAt := some (fromDateTimeOffset r.run.createdAt)
  startedAt := r.run.startedAt.map fromDateTimeOffset
  finishedAt := r.run.finishedAt.map fromDateTimeOffset
  state := (Persistence.stateName r.run.state).toList
  triggerSource := r.run.triggerSource.toList
  errorMessage := (r.run.errorMessage.getD "").toList
  errorStackTrace := (r.run.errorStackTrace.getD "").toList

/-! ## A node and the dashboard -/

structure Reporter where
  runs : FlushLoop RunRecord
  db : IngestDb

def Reporter.initial (db : IngestDb) : Reporter := ⟨.start, db⟩

inductive ReporterEvent where
  | reportRun (run : ReportedRun)
  | wake
  | tryRead
  /-- The dashboard handles the batch; its answer may be lost on the way. -/
  | sendRuns (env : IngestAmbient) (accepted : Bool) (answered : Bool)
  /-- The call ends without reaching the dashboard. -/
  | sendFails (cancelled : Bool)
  | delayEnds
  | cancel
  | tryComplete

def Reporter.flush (s : Reporter) (e : FlushEvent RunRecord) : Option Reporter :=
  (s.runs.step 100 e).map fun runs => { s with runs := runs }

section Step
variable (chars : CharTable) (tryParse : Text → Option Guid) (header : Option Text) (nodeId : Text)

def Reporter.step (s : Reporter) : ReporterEvent → Option Reporter
  | .reportRun run => s.flush (.tryWrite (toProto nodeId run))
  | .wake => s.flush .wake
  | .tryRead => s.flush .tryRead
  | .sendRuns env accepted answered =>
    let (reply, db) := unaryServerHandler chars tryParse env accepted s.db header (.sendRuns s.runs.phase.batch)
    { s with db := db }.flush (.sendReturns (if answered && reply.succeeded then .delivered else .failed))
  | .sendFails cancelled => s.flush (.sendReturns (if cancelled then .cancelled else .failed))
  | .delayEnds => s.flush .delayEnds
  | .cancel => s.flush .cancel
  | .tryComplete => s.flush .tryComplete

end Step

def ReporterEvent.report : ReporterEvent → Option ReportedRun
  | .reportRun run => some run
  | _ => none

/-- The calls of `ReportRun`, in order. -/
def reports (es : List ReporterEvent) : List ReportedRun := es.filterMap ReporterEvent.report

/-! ## Snapshots and rows -/

/-- Between two snapshots of a run: what is constant, and what stays set. -/
structure Grows (r r' : ReportedRun) : Prop where
  createdAt : r'.run.createdAt = r.run.createdAt
  startedAt : r.run.startedAt ≠ none → r'.run.startedAt ≠ none
  finishedAt : r.run.finishedAt ≠ none → r'.run.finishedAt ≠ none
  errorMessage : r.run.errorMessage.getD "" ≠ "" → r'.run.errorMessage.getD "" ≠ ""
  errorStackTrace : r.run.errorStackTrace.getD "" ≠ "" → r'.run.errorStackTrace.getD "" ≠ ""

/-- The last snapshot of a run. -/
def lastSnapshot (runs : List ReportedRun) (id : Guid) : Option ReportedRun := (runs.filter (·.id = id)).getLast?

/-- A row that says what a snapshot says. -/
structure Shows (projectId : Guid) (nodeId : Text) (r : ReportedRun) (row : JobRun) : Prop where
  projectId : row.projectId = projectId
  jobName : row.jobName = r.run.jobName.toList
  nodeId : row.nodeId = nodeId
  state : row.state = (Persistence.stateName r.run.state).toList
  triggerSource : row.triggerSource = r.run.triggerSource.toList
  createdAt : row.createdAt = r.run.createdAt
  startedAt : row.startedAt = r.run.startedAt
  finishedAt : row.finishedAt = r.run.finishedAt
  errorMessage : row.errorMessage.getD [] = (r.run.errorMessage.getD "").toList
  errorStackTrace : row.errorStackTrace.getD [] = (r.run.errorStackTrace.getD "").toList

/-! ## Conversions -/

/-- A time comes back as it was. -/
theorem toDateTime_fromDateTimeOffset {t : Int} (h : InRange t) :
    (fromDateTimeOffset t).toDateTime = .ok t := by
  have hlow : 0 ≤ t := h.1
  have hhigh : t ≤ 3155378975999999999 := h.2
  have hrange : 0 ≤ t % 10000000 * 100 ∧ t % 10000000 * 100 ≤ 999999999 ∧
      -62135596800 ≤ t / 10000000 - 62135596800 ∧ t / 10000000 - 62135596800 ≤ 253402300799 := by
    omega
  have hticks : (t / 10000000 - 62135596800 + 62135596800) * 10000000 + t % 10000000 * 100 / 100 = t := by omega
  unfold Timestamp.toDateTime fromDateTimeOffset
  dsimp only
  rw [if_pos hrange, hticks]

theorem toDateTime_some {t : Int} (h : InRange t) : toDateTime? (some (fromDateTimeOffset t)) = .ok (some t) := by
  simp only [toDateTime?]
  rw [toDateTime_fromDateTimeOffset h]
  rfl

theorem toDateTime_map {t : Option Runtime.Instant} (h : ∀ x ∈ t, InRange x) :
    toDateTime? (t.map fromDateTimeOffset) = .ok t := by
  cases t with
  | none => rfl
  | some t => exact toDateTime_some (h t rfl)

theorem getD_nullIfEmpty (s : Text) : (nullIfEmpty s).getD [] = s := by
  unfold nullIfEmpty
  split
  · rename_i h
    exact h.symm
  · rfl

/-- An error field that is not empty replaces the stored one, an empty one leaves it. -/
theorem getD_nullIfEmpty_or (s : Text) (stored : Option Text) :
    ((nullIfEmpty s).or stored).getD [] = if s = [] then stored.getD [] else s := by
  unfold nullIfEmpty
  split <;> rfl

theorem lastSnapshot_snoc (runs : List ReportedRun) (r : ReportedRun) (id : Guid) :
    lastSnapshot (runs ++ [r]) id = if id = r.id then some r else lastSnapshot runs id := by
  unfold lastSnapshot
  rw [List.filter_append]
  by_cases hid : id = r.id
  · simp [hid]
  · simp [hid, Ne.symm hid]

theorem mem_of_lastSnapshot {runs : List ReportedRun} {id : Guid} {r : ReportedRun} (h : lastSnapshot runs id = some r) :
    r ∈ runs ∧ r.id = id := by
  have hmem := List.mem_filter.1 (List.mem_of_getLast? h)
  exact ⟨hmem.1, by simpa using hmem.2⟩

/-! ## One record -/

section Rows
variable {projectId : Guid} {nodeId : Text} {now : DateTime}

/-- The row after a record of the run. -/
abbrev rowAfter (projectId : Guid) (nodeId : Text) (now : DateTime) (r : ReportedRun) : Option JobRun → JobRun :=
  upserted projectId now r.id (toProto nodeId r) (some r.run.createdAt) r.run.startedAt r.run.finishedAt

theorem shows_inserted (r : ReportedRun) : Shows projectId nodeId r (rowAfter projectId nodeId now r none) where
  projectId := rfl
  jobName := rfl
  nodeId := rfl
  state := rfl
  triggerSource := rfl
  createdAt := rfl
  startedAt := rfl
  finishedAt := rfl
  errorMessage := getD_nullIfEmpty _
  errorStackTrace := getD_nullIfEmpty _

/-- A time that stays set: the row's own is kept only where neither has one. -/
theorem or_of_stays {t stored : Option Runtime.Instant} (h : stored ≠ none → t ≠ none) : t.or stored = t := by
  cases t with
  | some t => rfl
  | none =>
    cases stored with
    | none => rfl
    | some stored => exact absurd rfl (h nofun)

theorem error_of_stays {s before : String} {stored : Option Text} (hstored : stored.getD [] = before.toList)
    (h : before ≠ "" → s ≠ "") : ((nullIfEmpty s.toList).or stored).getD [] = s.toList := by
  rw [getD_nullIfEmpty_or, hstored]
  split
  · rename_i hs
    have hempty : s = "" := by simpa using hs
    have hbefore : before = "" := by
      by_contra hne
      exact h hne hempty
    rw [hempty, hbefore]
  · rfl

theorem shows_updated {r r' : ReportedRun} {row : JobRun} (h : Shows projectId nodeId r row) (hg : Grows r r') :
    Shows projectId nodeId r' (rowAfter projectId nodeId now r' (some row)) where
  projectId := h.projectId
  jobName := rfl
  nodeId := rfl
  state := rfl
  triggerSource := rfl
  createdAt := h.createdAt.trans hg.createdAt.symm
  startedAt := or_of_stays (h.startedAt ▸ hg.startedAt)
  finishedAt := or_of_stays (h.finishedAt ▸ hg.finishedAt)
  errorMessage := error_of_stays h.errorMessage hg.errorMessage
  errorStackTrace := error_of_stays h.errorStackTrace hg.errorStackTrace

/-- The rows are the last snapshots of `done`; the other rows are as they were. -/
def Reflects (projectId : Guid) (nodeId : Text) (before : Guid → Option JobRun) (done : List ReportedRun)
    (rows : Guid → Option JobRun) : Prop :=
  ∀ id, match lastSnapshot done id with
    | none => rows id = before id
    | some r => ∃ row, rows id = some row ∧ Shows projectId nodeId r row

theorem reflects_snoc {before rows rows' : Guid → Option JobRun} {done : List ReportedRun} {r : ReportedRun}
    (h : Reflects projectId nodeId before done rows) (hnew : before r.id = none)
    (hg : ∀ x ∈ done, x.id = r.id → Grows x r)
    (hrows : ∀ id, rows' id = if id = r.id then some (rowAfter projectId nodeId now r (rows r.id)) else rows id) :
    Reflects projectId nodeId before (done ++ [r]) rows' := by
  intro id
  rw [lastSnapshot_snoc, hrows]
  by_cases hid : id = r.id
  · subst hid
    rw [if_pos rfl, if_pos rfl]
    have hbefore := h r.id
    cases hlast : lastSnapshot done r.id with
    -- The first report of the run inserts its row.
    | none =>
      rw [hlast] at hbefore
      have hnone : rows r.id = none := hbefore.trans hnew
      exact ⟨_, rfl, hnone ▸ shows_inserted r⟩
    | some x =>
      rw [hlast] at hbefore
      obtain ⟨row, hrow, hshows⟩ := hbefore
      obtain ⟨hmem, hxid⟩ := mem_of_lastSnapshot hlast
      exact ⟨_, rfl, hrow ▸ shows_updated hshows (hg x hmem hxid)⟩
  · rw [if_neg hid, if_neg hid]
    exact h id

/-- One record of a batch, whose run has no row of its own before the reports. -/
theorem sendRun_reflects {tryParse : Text → Option Guid} (hparse : ∀ g, tryParse (guidText g).toList = some g)
    {env : IngestAmbient} {before : Guid → Option JobRun} {done : List ReportedRun} {r : ReportedRun} {index : Nat}
    {set set' : EntitySet JobRun} (h : Reflects projectId nodeId before done (set.find JobRun.id))
    (hnamed : r.id ≠ 0) (hnew : before r.id = none) (hg : ∀ x ∈ done, x.id = r.id → Grows x r)
    (hsend : sendRun tryParse env projectId now set (toProto nodeId r, index) = .ok set') :
    Reflects projectId nodeId before (done ++ [r]) (set'.find JobRun.id) := by
  apply reflects_snoc h hnew hg
  intro id
  have hid : tryParse (toProto nodeId r).id = some r.id := by
    simp only [toProto]
    exact hparse r.id
  have hcreated : toDateTime? (toProto nodeId r).createdAt = .ok (some r.run.createdAt) := toDateTime_some r.createdAt
  have hstarted : toDateTime? (toProto nodeId r).startedAt = .ok r.run.startedAt := toDateTime_map r.startedAt
  have hfinished : toDateTime? (toProto nodeId r).finishedAt = .ok r.run.finishedAt := toDateTime_map r.finishedAt
  exact sendRun_find hid hnamed hcreated hstarted hfinished hsend id

/-- A batch, wherever it was cut. -/
theorem batch_reflects {tryParse : Text → Option Guid} (hparse : ∀ g, tryParse (guidText g).toList = some g)
    {env : IngestAmbient} {before : Guid → Option JobRun} {batch done : List ReportedRun} {index : Nat}
    {set set' : EntitySet JobRun} (h : Reflects projectId nodeId before done (set.find JobRun.id))
    (hnamed : ∀ r ∈ batch, r.id ≠ 0) (hnew : ∀ r ∈ batch, before r.id = none)
    (hg : (done ++ batch).Pairwise fun r r' => r.id = r'.id → Grows r r')
    (hsend : ((batch.map (toProto nodeId)).zipIdx index).foldlM (sendRun tryParse env projectId now) set = .ok set') :
    Reflects projectId nodeId before (done ++ batch) (set'.find JobRun.id) := by
  induction batch generalizing done index set with
  | nil =>
    cases hsend
    rwa [List.append_nil]
  | cons r batch ih =>
    rw [List.map_cons, List.zipIdx_cons, List.foldlM_cons, except_bind_ok] at hsend
    obtain ⟨mid, hone, hrest⟩ := hsend
    have hgrows : ∀ x ∈ done, x.id = r.id → Grows x r := by
      intro x hx
      exact (List.pairwise_append.1 hg).2.2 x hx r List.mem_cons_self
    have hmid := sendRun_reflects hparse h (hnamed r List.mem_cons_self) (hnew r List.mem_cons_self) hgrows hone
    rw [List.append_cons] at hg ⊢
    exact ih hmid (fun x hx => hnamed x (List.mem_cons_of_mem _ hx)) (fun x hx => hnew x (List.mem_cons_of_mem _ hx)) hg hrest

end Rows

/-! ## Runs -/

section Runs
variable {chars : CharTable} {tryParse : Text → Option Guid} {header : Option Text} {nodeId : Text}

/-- Every send so far was delivered, and nobody has asked for a stop. -/
structure FailureFree (s : Reporter) : Prop where
  delivered : ∀ m ∈ s.runs.sends, m.2 = .delivered
  running : s.runs.cancelled = false ∧ s.runs.completed = false

/-- The row with a run's id. -/
def rowOf (db : IngestDb) (id : Guid) : Option JobRun := db.tables.jobRuns.find? (·.id = id)

/-- The loop, the calls of `ReportRun` and the dashboard in step: `done` has been sent and the rest is to come. -/
structure Tracked (before : IngestDb) (projectId : Guid) (nodeId : Text) (runs : List ReportedRun) (s : Reporter) : Prop where
  accepted : s.runs.accepted = runs.map (toProto nodeId)
  keys : s.db.tables.apiKeys = before.tables.apiKeys
  rows : ∃ done rest, runs = done ++ rest ∧ (s.runs.sends.map Prod.fst).flatten = done.map (toProto nodeId) ∧
    Reflects projectId nodeId (rowOf before) done (rowOf s.db)

/-- What the reports of a run of the node keep to: `Guid.NewGuid()` never draws the empty id. -/
structure Steady (before : IngestDb) (runs : List ReportedRun) : Prop where
  named : ∀ r ∈ runs, r.id ≠ 0
  grows : runs.Pairwise fun r r' => r.id = r'.id → Grows r r'
  new : ∀ r ∈ runs, rowOf before r.id = none

theorem steady_prefix {before : IngestDb} {runs more : List ReportedRun} (h : Steady before (runs ++ more)) :
    Steady before runs where
  named r hr := h.named r (List.mem_append_left _ hr)
  grows := (List.pairwise_append.1 h.grows).1
  new r hr := h.new r (List.mem_append_left _ hr)

theorem reports_snoc (es : List ReporterEvent) (e : ReporterEvent) : reports (es ++ [e]) = reports es ++ e.report.toList := by
  unfold reports
  rw [List.filterMap_append]
  cases h : e.report <;> simp [h]

theorem flush_some {s s' : Reporter} {e : FlushEvent RunRecord} (h : s.flush e = some s') :
    s.runs.step 100 e = some s'.runs ∧ s'.db = s.db := by
  obtain ⟨runs, hstep, rfl⟩ := Option.map_eq_some_iff.1 h
  exact ⟨hstep, rfl⟩

theorem failureFree_flush {s s' : Reporter} {e : FlushEvent RunRecord} (h : s.flush e = some s') (hf : FailureFree s') :
    FailureFree s := by
  obtain ⟨hstep, -⟩ := flush_some h
  obtain ⟨-, hsent, hcancelled, hcompleted⟩ := step_effects hstep
  refine { delivered := fun m hm => hf.delivered m ?_, running := ⟨hcancelled hf.running.1, hcompleted hf.running.2⟩ }
  rw [hsent]
  exact List.mem_append_left _ hm

/-- A step that accepts nothing, sends nothing and leaves the dashboard alone. -/
theorem tracked_quiet {before : IngestDb} {projectId : Guid} {runs : List ReportedRun} {s s' : Reporter}
    {e : FlushEvent RunRecord} (ht : Tracked before projectId nodeId runs s) (h : s.flush e = some s')
    (haccepts : e.accepts s.runs = []) (hsends : e.sends s.runs = []) : Tracked before projectId nodeId runs s' := by
  obtain ⟨hstep, hdb⟩ := flush_some h
  obtain ⟨haccepted, hsent, -⟩ := step_effects hstep
  rw [haccepts, List.append_nil] at haccepted
  rw [hsends, List.append_nil] at hsent
  refine { accepted := haccepted.trans ht.accepted, keys := hdb ▸ ht.keys, rows := ?_ }
  rw [hsent, hdb]
  exact ht.rows

theorem tracked_report {before : IngestDb} {projectId : Guid} {runs : List ReportedRun} {s s' : Reporter} {run : ReportedRun}
    (ht : Tracked before projectId nodeId runs s) (h : s.flush (.tryWrite (toProto nodeId run)) = some s')
    (hopen : s.runs.completed = false) : Tracked before projectId nodeId (runs ++ [run]) s' := by
  obtain ⟨hstep, hdb⟩ := flush_some h
  obtain ⟨haccepted, hsent, -⟩ := step_effects hstep
  simp only [FlushEvent.accepts, hopen] at haccepted
  simp only [FlushEvent.sends, List.append_nil] at hsent
  obtain ⟨done, rest, hsplit, hdone, hreflects⟩ := ht.rows
  refine { accepted := ?_, keys := hdb ▸ ht.keys, rows := ⟨done, rest ++ [run], ?_, ?_, ?_⟩ }
  · rw [haccepted, ht.accepted, List.map_append]
    rfl
  · rw [hsplit, List.append_assoc]
  · rw [hsent, hdone]
  · rw [hdb]
    exact hreflects

/-- A batch that is delivered is a stretch of the reports. -/
theorem tracked_sendRuns (hparse : ∀ g, tryParse (guidText g).toList = some g) {before : IngestDb} {apiKey : ApiKey}
    (hkey : resolveAsync chars before.tables header = .ok apiKey) {runs : List ReportedRun} {s s' : Reporter}
    {env : IngestAmbient} {accepted answered : Bool} (hflushing : Flushing 100 s.runs)
    (ht : Tracked before apiKey.projectId nodeId runs s) (hsteady : Steady before runs) (hf : FailureFree s')
    (h : s.step chars tryParse header nodeId (.sendRuns env accepted answered) = some s') :
    Tracked before apiKey.projectId nodeId runs s' := by
  simp only [Reporter.step] at h
  obtain ⟨hstep, hdb⟩ := flush_some h
  obtain ⟨haccepted, hsent, -⟩ := step_effects hstep
  simp only [FlushEvent.accepts, List.append_nil] at haccepted
  simp only [FlushEvent.sends] at hsent
  dsimp only at haccepted hsent hdb
  have hdelivered := hf.delivered _ (hsent ▸ List.mem_append_right _ (List.mem_singleton.2 rfl))
  have hsucceeded : (unaryServerHandler chars tryParse env accepted s.db header (.sendRuns s.runs.phase.batch)).1.succeeded =
      true := by
    dsimp only at hdelivered
    split at hdelivered
    · rename_i hanswer
      exact (Bool.and_eq_true_iff.1 hanswer).2
    · cases hdelivered
  obtain ⟨set, hfold, htables⟩ := unaryServerHandler_sendRuns ((resolveAsync_congr ht.keys).trans hkey) hsucceeded
  rw [← hdb] at htables
  obtain ⟨done, rest, hsplit, hdone, hreflects⟩ := ht.rows
  -- The batch is what comes first of the rest.
  have hrest : s.runs.phase.batch ++ s.runs.channel = rest.map (toProto nodeId) := by
    have hconserved := hflushing.conserved
    rw [hdone, ht.accepted, hsplit, List.map_append] at hconserved
    exact List.append_cancel_left hconserved
  obtain ⟨batch, later, hrestsplit, hbatch, -⟩ := List.append_eq_map_iff.1 hrest
  rw [hsplit] at hsteady
  rw [hrestsplit, ← List.append_assoc] at hsplit hsteady
  refine { accepted := haccepted.trans ht.accepted, keys := ?_, rows := ⟨done ++ batch, later, hsplit, ?_, ?_⟩ }
  · rw [htables]
    exact ht.keys
  · rw [hsent, List.map_append, List.flatten_append, hdone, List.map_append, hbatch]
    simp
  · have hopen : rowOf s.db = (EntitySet.open_ s.db.tables.jobRuns).find JobRun.id := by
      funext id
      unfold rowOf EntitySet.find
      rw [EntitySet.saved_open]
    have hrow : rowOf s'.db = set.find JobRun.id := by
      funext id
      unfold rowOf EntitySet.find
      rw [htables]
    rw [hrow]
    rw [hopen] at hreflects
    rw [← hbatch] at hfold
    have hsteady' := steady_prefix hsteady
    exact batch_reflects hparse hreflects (fun r hr => hsteady'.named r (List.mem_append_right _ hr))
      (fun r hr => hsteady'.new r (List.mem_append_right _ hr)) hsteady'.grows hfold

theorem failureFree_step {s s' : Reporter} {e : ReporterEvent} (h : s.step chars tryParse header nodeId e = some s')
    (hf : FailureFree s') : FailureFree s := by
  cases e with
  | sendRuns env accepted answered =>
    have hs := failureFree_flush h hf
    exact { delivered := hs.delivered, running := hs.running }
  | reportRun _ | wake | tryRead | sendFails _ | delayEnds | cancel | tryComplete => exact failureFree_flush h hf

theorem flushing_run {s s' : Reporter} {e : ReporterEvent} (hi : Flushing 100 s.runs)
    (h : s.step chars tryParse header nodeId e = some s') : Flushing 100 s'.runs := by
  cases e with
  | sendRuns env accepted answered => exact flushing_step hi (flush_some h).1
  | reportRun _ | wake | tryRead | sendFails _ | delayEnds | cancel | tryComplete =>
    exact flushing_step hi (flush_some h).1

theorem tracked_step (hparse : ∀ g, tryParse (guidText g).toList = some g) {before : IngestDb} {apiKey : ApiKey}
    (hkey : resolveAsync chars before.tables header = .ok apiKey) {runs : List ReportedRun} {s s' : Reporter}
    {e : ReporterEvent} (hflushing : Flushing 100 s.runs) (ht : Tracked before apiKey.projectId nodeId runs s)
    (hsteady : Steady before runs) (hf : FailureFree s') (h : s.step chars tryParse header nodeId e = some s') :
    Tracked before apiKey.projectId nodeId (runs ++ e.report.toList) s' := by
  have hrunning := (failureFree_step h hf).running
  cases e with
  | reportRun run => exact tracked_report ht h hrunning.2
  | sendRuns env accepted answered =>
    simpa only [ReporterEvent.report, Option.toList_none, List.append_nil] using
      tracked_sendRuns hparse hkey hflushing ht hsteady hf h
  | sendFails cancelled =>
    -- A send that fails is not failure-free.
    obtain ⟨hstep, -⟩ := flush_some h
    have hsent := (step_effects hstep).2.1
    simp only [FlushEvent.sends] at hsent
    have hdelivered := hf.delivered _ (hsent ▸ List.mem_append_right _ (List.mem_singleton.2 rfl))
    cases cancelled <;> cases hdelivered
  | wake | tryRead | delayEnds | cancel | tryComplete =>
    simpa only [ReporterEvent.report, Option.toList_none, List.append_nil] using tracked_quiet ht h rfl rfl

/-- In every run of reports and flushes, in whatever order they meet, in which
every send succeeds and no stop is requested: the messages sent and what is
still to be sent are the snapshots in the order of the calls, in batches of 1 to
100; and whenever nothing is still to be sent, the row of each run in the
project is its last snapshot. -/
theorem reports_reach_dashboard (chars : CharTable) (tryParse : Text → Option Guid) (header : Option Text) (nodeId : Text)
    (hparse : ∀ g, tryParse (guidText g).toList = some g) (before : IngestDb) (apiKey : ApiKey)
    (hkey : resolveAsync chars before.tables header = .ok apiKey) (es : List ReporterEvent) (s : Reporter)
    (hrun : exec (Reporter.step chars tryParse header nodeId) (.initial before) es = some s) (hfree : FailureFree s)
    (hsteady : Steady before (reports es)) :
    (s.runs.sends.map Prod.fst).flatten ++ s.runs.unsent = (reports es).map (toProto nodeId) ∧
    (∀ m ∈ s.runs.sends, m.1 ≠ [] ∧ m.1.length ≤ 100) ∧
    (s.runs.unsent = [] → ∀ id r, lastSnapshot (reports es) id = some r →
      ∃ row ∈ s.db.tables.jobRuns, row.id = id ∧ Shows apiKey.projectId nodeId r row) := by
  have hinv : Flushing 100 s.runs ∧
      (FailureFree s → Steady before (reports es) → Tracked before apiKey.projectId nodeId (reports es) s) := by
    apply exec_history (fun es s => Flushing 100 s.runs ∧
      (FailureFree s → Steady before (reports es) → Tracked before apiKey.projectId nodeId (reports es) s)) _ _ hrun
    · rintro es s e s' ⟨hflushing, ht⟩ hstep
      refine ⟨flushing_run hflushing hstep, fun hf hsteady => ?_⟩
      rw [reports_snoc] at hsteady ⊢
      have hold := steady_prefix hsteady
      exact tracked_step hparse hkey hflushing (ht (failureFree_step hstep hf) hold) hold hf hstep
    · refine ⟨flushing_start 100, fun _ _ => { accepted := rfl, keys := rfl, rows := ⟨[], [], rfl, rfl, fun _ => rfl⟩ }⟩
  obtain ⟨hflushing, ht⟩ := hinv
  have htracked := ht hfree hsteady
  have hconserved := hflushing.conserved.trans htracked.accepted
  refine ⟨hconserved, hflushing.bounded, fun hempty id r hlast => ?_⟩
  obtain ⟨done, rest, hsplit, hdone, hreflects⟩ := htracked.rows
  -- Nothing is to come, so everything reported has been sent.
  rw [hempty, hdone, List.append_nil, hsplit, List.map_append] at hconserved
  have hrest : rest = [] := List.map_eq_nil_iff.1 (List.self_eq_append_right.1 hconserved)
  rw [hrest, List.append_nil] at hsplit
  have hrow := hreflects id
  rw [← hsplit, hlast] at hrow
  obtain ⟨row, hrow, hshows⟩ := hrow
  obtain ⟨hmem, hid⟩ := find_row_mem hrow
  exact ⟨row, hmem, hid, hshows⟩

end Runs

/-! ## A run in two messages -/

def pendingSync : ReportedRun where
  run := ⟨7, "sync", 100, none, none, .pending, "Cron", none, none⟩
  id_lt := by decide
  createdAt := by decide
  startedAt := by decide
  finishedAt := by decide

def runningSync : ReportedRun where
  run := ⟨7, "sync", 100, some 150, none, .running, "Cron", none, none⟩
  id_lt := by decide
  createdAt := by decide
  startedAt := by decide
  finishedAt := by decide

/-- The second report comes while the first is on its way. -/
def twoMessages : List ReporterEvent :=
  [.reportRun pendingSync, .wake, .tryRead, .tryRead, .reportRun runningSync, .sendRuns tenantEnv true true, .delayEnds,
    .wake, .tryRead, .tryRead, .sendRuns tenantEnv true true]

def runTwoMessages : Option Reporter :=
  exec (Reporter.step ascii tryParseHyphenated (some "k1".toList) "n1".toList) (.initial twoTenants) twoMessages

theorem steady_twoMessages : Steady twoTenants (reports twoMessages) := by
  have hreports : reports twoMessages = [pendingSync, runningSync] := rfl
  have hid : ∀ r ∈ [pendingSync, runningSync], r.id = 7 := by
    intro r hr
    rcases List.mem_pair.1 hr with rfl | rfl <;> rfl
  rw [hreports]
  refine { named := fun r hr => ?_, grows := List.pairwise_pair.2 fun _ => ?_, new := fun r hr => ?_ }
  · rw [hid r hr]
    decide
  · exact { createdAt := rfl, startedAt := nofun, finishedAt := nofun, errorMessage := by decide, errorStackTrace := by decide }
  · rw [hid r hr]
    decide +kernel

theorem reports_reach_dashboard_twoMessages :
    ∃ s, runTwoMessages = some s ∧ ∃ row ∈ s.db.tables.jobRuns, row.id = 7 ∧ Shows 1 "n1".toList runningSync row := by
  have hsome : runTwoMessages.isSome = true := by decide +kernel
  have hall : runTwoMessages.all (fun s => s.runs.sends.all (fun m => m.2 = .delivered) && !s.runs.cancelled &&
      !s.runs.completed && s.runs.phase.batch.isEmpty && s.runs.channel.isEmpty) = true := by
    decide +kernel
  obtain ⟨s, hs⟩ := Option.isSome_iff_exists.1 hsome
  rw [hs] at hall
  simp only [Option.all_some, Bool.and_eq_true, List.all_eq_true, decide_eq_true_eq, Bool.not_eq_true',
    List.isEmpty_iff] at hall
  obtain ⟨⟨⟨⟨hdelivered, hcancelled⟩, hcompleted⟩, hbatch⟩, hchannel⟩ := hall
  have hunsent : s.runs.unsent = [] := by
    unfold FlushLoop.unsent
    rw [hbatch, hchannel]
    rfl
  obtain ⟨-, -, hrows⟩ := reports_reach_dashboard ascii tryParseHyphenated (some "k1".toList) "n1".toList tryParse_guidText
    twoTenants keyOfOne resolveAsync_k1 twoMessages s hs ⟨hdelivered, hcancelled, hcompleted⟩ steady_twoMessages
  exact ⟨s, hs, hrows hunsent 7 runningSync rfl⟩

end DuckRun.Reporting
