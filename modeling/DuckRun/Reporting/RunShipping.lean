import DuckRun.Dashboard.ConsoleLines
import DuckRun.Reporting.GrpcDashboardReporter
/-!
# Runs on the dashboard when sends are lost

Every process reports the snapshots of its runs through its own flush loop, and
a batch is sent once, whatever becomes of it. Of a run the dashboard has the
last snapshot among the batches it saved, and as later snapshots keep what
earlier ones said, that is a snapshot the process reported, whole, even where
the ones before it were lost.
-/

namespace DuckRun.Reporting

open DuckRun.Lib DuckRun.Dashboard

structure RunShipping where
  loops : Nat → FlushLoop RunRecord
  db : IngestDb
  /-- The records of each process that the dashboard saved. -/
  handled : Nat → List RunRecord

def RunShipping.initial (db : IngestDb) : RunShipping := ⟨fun _ => .start, db, fun _ => []⟩

inductive RunShippingEvent where
  | reportRun (i : Nat) (run : ReportedRun)
  /-- A step of the loop or of the stop that neither writes nor sends. -/
  | turn (i : Nat) (e : FlushEvent RunRecord)
  /-- The dashboard handles the batch. Its answer may be lost, or the call cancelled before it comes. -/
  | sendRuns (i : Nat) (env : IngestAmbient) (accepted : Bool) (outcome : SendOutcome)
  /-- The call ends without reaching the dashboard. -/
  | sendFails (i : Nat) (cancelled : Bool)
  /-- Any other call of the service. -/
  | ingest (env : IngestAmbient) (accepted : Bool) (header : Option Text) (call : Call)

section Step
variable (chars : CharTable) (tryParse : Text → Option Guid) (header : Nat → Option Text) (nodeId : Nat → Text)

def RunShipping.flush (s : RunShipping) (i : Nat) (e : FlushEvent RunRecord) : Option RunShipping :=
  ((s.loops i).step 100 e).map fun loop => { s with loops := Function.update s.loops i loop }

def RunShipping.step (s : RunShipping) : RunShippingEvent → Option RunShipping
  | .reportRun i run => s.flush i (.tryWrite (toProto (nodeId i) run))
  | .turn i e => if e.isTurn then s.flush i e else none
  | .sendRuns i env accepted outcome =>
    let batch := (s.loops i).phase.batch
    let (reply, db) := unaryServerHandler chars tryParse env accepted s.db (header i) (.sendRuns batch)
    if outcome = .delivered ∧ reply.succeeded = false then none
    else
      let handled := if reply.succeeded then Function.update s.handled i (s.handled i ++ batch) else s.handled
      { s with db := db, handled := handled }.flush i (.sendReturns outcome)
  | .sendFails i cancelled => s.flush i (.sendReturns (if cancelled then .cancelled else .failed))
  | .ingest env accepted header call =>
    some { s with db := (unaryServerHandler chars tryParse env accepted s.db header call).2 }

end Step

/-! ## What is reported and what is shown -/

def RunShippingEvent.report (i : Nat) : RunShippingEvent → Option ReportedRun
  | .reportRun j run => if j = i then some run else none
  | _ => none

/-- The calls of `ReportRun` in process `i`, in order. -/
def reportsBy (i : Nat) (es : List RunShippingEvent) : List ReportedRun := es.filterMap (RunShippingEvent.report i)

/-- The last record of a run. -/
def lastRecord (tryParse : Text → Option Guid) (id : Guid) (records : List RunRecord) : Option RunRecord :=
  (records.filter fun r => tryParse r.id = some id).getLast?

/-- The row is that of a snapshot that was sent as `r`. -/
def Told (projectId : Guid) (nodeId : Text) (r : RunRecord) (row : JobRun) : Prop :=
  ∃ run, toProto nodeId run = r ∧ Shows projectId nodeId run row

/-- A call that names the run in no record, and draws another key for a record of the empty `Guid`. -/
def SparesRun (tryParse : Text → Option Guid) (id : Guid) (env : IngestAmbient) : Call → Prop
  | .sendRuns runs => ∀ r ∈ runs, tryParse r.id ≠ some id ∧ (tryParse r.id = some 0 → ∀ k, env.newGuid k ≠ id)
  | _ => True

/-- Only process `i` reports the run, and no run has the empty id. -/
def RunShippingEvent.Spares (tryParse : Text → Option Guid) (i : Nat) (id : Guid) : RunShippingEvent → Prop
  | .reportRun j run => run.id ≠ 0 ∧ (run.id = id → j = i)
  | .ingest env _ _ call => SparesRun tryParse id env call
  | _ => True

/-! ## Calls that leave the run's row alone -/

section Spared
variable {chars : CharTable} {tryParse : Text → Option Guid} {env : IngestAmbient} {projectId id : Guid} {now : DateTime}

theorem find_add_other {set : EntitySet JobRun} {row : JobRun} (h : row.id ≠ id) :
    (set.add row).find JobRun.id id = set.find JobRun.id id := by
  unfold EntitySet.find
  rw [EntitySet.saved_add, List.find?_append]
  simp [h]

theorem sendRun_spares {set set' : EntitySet JobRun} {r : RunRecord} {index : Nat} (hid : tryParse r.id ≠ some id)
    (hdraw : tryParse r.id = some 0 → ∀ k, env.newGuid k ≠ id)
    (h : sendRun tryParse env projectId now set (r, index) = .ok set') : set'.find JobRun.id id = set.find JobRun.id id := by
  unfold sendRun at h
  cases hparse : tryParse r.id with
  | none =>
    simp only [hparse] at h
    cases h
    rfl
  | some runId =>
    have hne : runId ≠ id := fun he => hid (he ▸ hparse)
    simp only [hparse] at h
    split at h
    · obtain ⟨createdAt, -, h⟩ := except_bind_ok.1 h
      obtain ⟨startedAt, -, h⟩ := except_bind_ok.1 h
      obtain ⟨finishedAt, -, h⟩ := except_bind_ok.1 h
      cases h
      apply find_add_other
      dsimp only
      split
      · rename_i hzero
        exact hdraw (hzero ▸ hparse) index
      · exact hne
    · obtain ⟨startedAt, -, h⟩ := except_bind_ok.1 h
      obtain ⟨finishedAt, -, h⟩ := except_bind_ok.1 h
      cases h
      rw [find_modify, if_neg (Ne.symm hne)]
      exact fun _ => rfl

theorem sendRuns_spares {runs : List RunRecord} {index : Nat} {set set' : EntitySet JobRun}
    (hspares : SparesRun tryParse id env (.sendRuns runs))
    (h : (runs.zipIdx index).foldlM (sendRun tryParse env projectId now) set = .ok set') :
    set'.find JobRun.id id = set.find JobRun.id id := by
  induction runs generalizing index set with
  | nil =>
    cases h
    rfl
  | cons r runs ih =>
    rw [List.zipIdx_cons, List.foldlM_cons, except_bind_ok] at h
    obtain ⟨mid, hone, hrest⟩ := h
    obtain ⟨hid, hdraw⟩ := hspares r List.mem_cons_self
    rw [ih (fun x hx => hspares x (List.mem_cons_of_mem _ hx)) hrest]
    exact sendRun_spares hid hdraw hone

theorem rowOf_open (db : IngestDb) (id : Guid) : (EntitySet.open_ db.tables.jobRuns).find JobRun.id id = rowOf db id := by
  unfold rowOf EntitySet.find
  rw [EntitySet.saved_open]

theorem rowOf_spared {accepted : Bool} {db : IngestDb} {header : Option Text} {call : Call}
    (hspares : SparesRun tryParse id env call) :
    rowOf (unaryServerHandler chars tryParse env accepted db header call).2 id = rowOf db id := by
  rcases @unaryServerHandler_cases chars tryParse env accepted db header call with ⟨-, hsame⟩ | ⟨apiKey, -, -, hrun⟩
  · rw [hsame]
  · unfold rowOf
    cases call with
    | handshake request =>
      unfold run handshake at hrun
      obtain ⟨_, -, hrun⟩ := except_bind_ok.1 hrun
      obtain ⟨_, -, hrun⟩ := except_bind_ok.1 hrun
      obtain ⟨_, -, hrun⟩ := except_bind_ok.1 hrun
      rw [← (Prod.mk.inj (Except.ok.inj hrun)).1]
    | sendHeartbeat request =>
      unfold run sendHeartbeat at hrun
      obtain ⟨_, -, hrun⟩ := except_bind_ok.1 hrun
      obtain ⟨_, -, hrun⟩ := except_bind_ok.1 hrun
      rw [← (Prod.mk.inj (Except.ok.inj hrun)).1]
    | sendLogs logs =>
      unfold run sendLogs at hrun
      obtain ⟨_, -, hrun⟩ := except_bind_ok.1 hrun
      rw [← (Prod.mk.inj (Except.ok.inj hrun)).1]
    | sendRuns runs =>
      obtain ⟨set, hfold, htables⟩ := sendRuns_saved hrun
      rw [htables]
      exact (sendRuns_spares hspares hfold).trans (rowOf_open db id)

end Spared

/-! ## Batches of the run's process -/

section Batches
variable {chars : CharTable} {tryParse : Text → Option Guid} {env : IngestAmbient} {projectId id : Guid} {nodeId : Text}
  {now : DateTime}

/-- Two records of one run, as far as their snapshots go. -/
def RecordGrows (nodeId : Text) (r r' : RunRecord) : Prop :=
  ∀ x y, toProto nodeId x = r → toProto nodeId y = r' → x.id = y.id → Grows x y

theorem guid_of_toProto (hparse : ∀ g, tryParse (guidText g).toList = some g) (x : ReportedRun) :
    tryParse (toProto nodeId x).id = some x.id := by
  simp only [toProto]
  exact hparse x.id

/-- Two snapshots as far as a record of them goes. -/
structure SentAlike (x y : ReportedRun) : Prop where
  id : x.id = y.id
  createdAt : x.run.createdAt = y.run.createdAt
  startedAt : x.run.startedAt = y.run.startedAt
  finishedAt : x.run.finishedAt = y.run.finishedAt
  errorMessage : x.run.errorMessage.getD "" = y.run.errorMessage.getD ""
  errorStackTrace : x.run.errorStackTrace.getD "" = y.run.errorStackTrace.getD ""

theorem sentAlike (hparse : ∀ g, tryParse (guidText g).toList = some g) {x y : ReportedRun}
    (h : toProto nodeId x = toProto nodeId y) : SentAlike x y := by
  have hid := congrArg (fun r => tryParse (RunRecord.id r)) h
  have hcreated := congrArg (fun r => toDateTime? (RunRecord.createdAt r)) h
  have hstarted := congrArg (fun r => toDateTime? (RunRecord.startedAt r)) h
  have hfinished := congrArg (fun r => toDateTime? (RunRecord.finishedAt r)) h
  simp only [guid_of_toProto hparse, Option.some.injEq] at hid
  simp only [toProto, toDateTime_some x.createdAt, toDateTime_some y.createdAt, Except.ok.injEq, Option.some.injEq] at hcreated
  simp only [toProto, toDateTime_map x.startedAt, toDateTime_map y.startedAt, Except.ok.injEq] at hstarted
  simp only [toProto, toDateTime_map x.finishedAt, toDateTime_map y.finishedAt, Except.ok.injEq] at hfinished
  exact ⟨hid, hcreated, hstarted, hfinished, String.toList_inj.1 (congrArg RunRecord.errorMessage h),
    String.toList_inj.1 (congrArg RunRecord.errorStackTrace h)⟩

theorem grows_congr {x y x' y' : ReportedRun} (hx : SentAlike x x') (hy : SentAlike y y') (h : Grows x y) : Grows x' y' where
  createdAt := by rw [← hx.createdAt, ← hy.createdAt]; exact h.createdAt
  startedAt := by rw [← hx.startedAt, ← hy.startedAt]; exact h.startedAt
  finishedAt := by rw [← hx.finishedAt, ← hy.finishedAt]; exact h.finishedAt
  errorMessage := by rw [← hx.errorMessage, ← hy.errorMessage]; exact h.errorMessage
  errorStackTrace := by rw [← hx.errorStackTrace, ← hy.errorStackTrace]; exact h.errorStackTrace

theorem shows_congr {x y : ReportedRun} {row : JobRun} (h : toProto nodeId x = toProto nodeId y) (ha : SentAlike x y)
    (hs : Shows projectId nodeId x row) : Shows projectId nodeId y row where
  projectId := hs.projectId
  jobName := hs.jobName.trans (congrArg RunRecord.jobName h)
  nodeId := hs.nodeId
  state := hs.state.trans (congrArg RunRecord.state h)
  triggerSource := hs.triggerSource.trans (congrArg RunRecord.triggerSource h)
  createdAt := hs.createdAt.trans ha.createdAt
  startedAt := hs.startedAt.trans ha.startedAt
  finishedAt := hs.finishedAt.trans ha.finishedAt
  errorMessage := hs.errorMessage.trans (congrArg RunRecord.errorMessage h)
  errorStackTrace := hs.errorStackTrace.trans (congrArg RunRecord.errorStackTrace h)

/-- The row of the run after these records: none before the first of it, and then what the last one told. -/
def RowTold (tryParse : Text → Option Guid) (projectId : Guid) (nodeId : Text) (id : Guid) (records : List RunRecord)
    (row : Option JobRun) : Prop :=
  match lastRecord tryParse id records with
  | none => row = none
  | some r => ∃ shown, row = some shown ∧ Told projectId nodeId r shown

theorem lastRecord_snoc (records : List RunRecord) (r : RunRecord) :
    lastRecord tryParse id (records ++ [r]) =
      if tryParse r.id = some id then some r else lastRecord tryParse id records := by
  unfold lastRecord
  rw [List.filter_append]
  split
  · rename_i hid
    rw [List.filter_cons_of_pos (by simpa using hid), List.filter_nil, List.getLast?_concat]
  · rename_i hid
    rw [List.filter_cons_of_neg (by simpa using hid), List.filter_nil, List.append_nil]

theorem lastRecord_mem {records : List RunRecord} {r : RunRecord} (h : lastRecord tryParse id records = some r) :
    r ∈ records ∧ tryParse r.id = some id := by
  obtain ⟨hmem, hid⟩ := List.mem_filter.1 (List.mem_of_getLast? h)
  exact ⟨hmem, of_decide_eq_true hid⟩

/-- One record of a batch. -/
theorem sendRun_told (hparse : ∀ g, tryParse (guidText g).toList = some g) {done : List RunRecord} {x : ReportedRun} {index : Nat}
    {set set' : EntitySet JobRun} (h : RowTold tryParse projectId nodeId id done (set.find JobRun.id id))
    (hnamed : x.id ≠ 0) (hg : ∀ r ∈ done, RecordGrows nodeId r (toProto nodeId x))
    (hsend : sendRun tryParse env projectId now set (toProto nodeId x, index) = .ok set') :
    RowTold tryParse projectId nodeId id (done ++ [toProto nodeId x]) (set'.find JobRun.id id) := by
  have hfind := sendRun_find (guid_of_toProto hparse x) hnamed (toDateTime_some x.createdAt) (toDateTime_map x.startedAt)
    (toDateTime_map x.finishedAt) hsend id
  unfold RowTold at h ⊢
  rw [lastRecord_snoc, guid_of_toProto hparse, hfind]
  by_cases hid : id = x.id
  · subst hid
    rw [if_pos rfl, if_pos rfl]
    cases hlast : lastRecord tryParse x.id done with
    | none =>
      rw [hlast] at h
      dsimp only at h
      rw [h]
      exact ⟨_, rfl, x, rfl, shows_inserted x⟩
    | some r =>
      rw [hlast] at h
      obtain ⟨row, hrow, y, hy, hshows⟩ := h
      rw [hrow]
      obtain ⟨hmem, hrid⟩ := lastRecord_mem hlast
      have hyid : y.id = x.id := by
        rw [← hy, guid_of_toProto hparse, Option.some.injEq] at hrid
        exact hrid
      exact ⟨_, rfl, x, rfl, shows_updated hshows (hg r hmem y x hy rfl hyid)⟩
  · rw [if_neg hid, if_neg (by simpa using Ne.symm hid)]
    exact h

/-- A batch, wherever it was cut. -/
theorem batch_told (hparse : ∀ g, tryParse (guidText g).toList = some g) {done batch : List RunRecord} {index : Nat}
    {set set' : EntitySet JobRun} (h : RowTold tryParse projectId nodeId id done (set.find JobRun.id id))
    (hsent : ∀ r ∈ batch, ∃ x, toProto nodeId x = r ∧ x.id ≠ 0) (hg : (done ++ batch).Pairwise (RecordGrows nodeId))
    (hsend : (batch.zipIdx index).foldlM (sendRun tryParse env projectId now) set = .ok set') :
    RowTold tryParse projectId nodeId id (done ++ batch) (set'.find JobRun.id id) := by
  induction batch generalizing done index set with
  | nil =>
    cases hsend
    rwa [List.append_nil]
  | cons r batch ih =>
    rw [List.zipIdx_cons, List.foldlM_cons, except_bind_ok] at hsend
    obtain ⟨mid, hone, hrest⟩ := hsend
    obtain ⟨x, rfl, hnamed⟩ := hsent r List.mem_cons_self
    have hgrows : ∀ r ∈ done, RecordGrows nodeId r (toProto nodeId x) := fun r hr =>
      (List.pairwise_append.1 hg).2.2 r hr _ List.mem_cons_self
    have hmid := sendRun_told hparse h hnamed hgrows hone
    rw [List.append_cons] at hg ⊢
    exact ih hmid (fun r hr => hsent r (List.mem_cons_of_mem _ hr)) hg hrest

end Batches

/-! ## Steps -/

section Steps
variable {chars : CharTable} {tryParse : Text → Option Guid} {header : Nat → Option Text} {nodeId : Nat → Text}

/-- What process `i` reported, what of it was sent and saved, and what the row of the run says. -/
structure RunShipped (tryParse : Text → Option Guid) (nodeId : Nat → Text) (before : IngestDb) (projectId : Guid) (i : Nat)
    (id : Guid) (runs : List ReportedRun) (s : RunShipping) : Prop where
  keys : s.db.tables.apiKeys = before.tables.apiKeys
  flushing : ∀ j, Flushing 100 (s.loops j)
  accepted : (s.loops i).accepted.Sublist (runs.map (toProto (nodeId i)))
  whole : (s.loops i).completed = false → (s.loops i).accepted = runs.map (toProto (nodeId i))
  /-- No other process has a record of the run. -/
  foreign : ∀ j, j ≠ i → ∀ r ∈ (s.loops j).accepted, tryParse r.id ≠ some id ∧ tryParse r.id ≠ some 0
  saved : ∃ kept, kept.Sublist (s.loops i).sends ∧ (delivered (s.loops i).sends).Sublist kept ∧
    s.handled i = (kept.map Prod.fst).flatten
  told : RowTold tryParse projectId (nodeId i) id (s.handled i) (rowOf s.db id)

/-- A step of one loop, whatever becomes of the dashboard. -/
structure LoopMoves (s : RunShipping) (i : Nat) (e : FlushEvent RunRecord) (s' : RunShipping) : Prop where
  step : (s.loops i).step 100 e = some (s'.loops i)
  others : ∀ j, j ≠ i → s'.loops j = s.loops j

theorem flush_loopMoves {s s' : RunShipping} {i : Nat} {e : FlushEvent RunRecord} (h : s.flush i e = some s') :
    LoopMoves s i e s' ∧ s'.handled = s.handled ∧ s'.db = s.db := by
  obtain ⟨loop, hloop, rfl⟩ := Option.map_eq_some_iff.1 h
  refine ⟨⟨?_, fun j hj => ?_⟩, rfl, rfl⟩
  · simpa using hloop
  · exact Function.update_of_ne hj _ _

theorem LoopMoves.flushing {s s' : RunShipping} {i : Nat} {e : FlushEvent RunRecord} (hm : LoopMoves s i e s')
    (h : ∀ j, Flushing 100 (s.loops j)) (j : Nat) : Flushing 100 (s'.loops j) := by
  by_cases hj : j = i
  · subst hj
    exact flushing_step (h j) hm.step
  · rw [hm.others j hj]
    exact h j

variable {before : IngestDb} {projectId id : Guid} {i j : Nat} {runs : List ReportedRun} {s s' : RunShipping}

/-- A step of another process than the run's. -/
theorem runShipped_other {e : FlushEvent RunRecord} (hs : RunShipped tryParse nodeId before projectId i id runs s)
    (hm : LoopMoves s j e s') (hj : j ≠ i)
    (haccepts : ∀ r ∈ e.accepts (s.loops j), tryParse r.id ≠ some id ∧ tryParse r.id ≠ some 0)
    (hkeys : s'.db.tables.apiKeys = s.db.tables.apiKeys) (hhandled : s'.handled i = s.handled i)
    (hrow : rowOf s'.db id = rowOf s.db id) : RunShipped tryParse nodeId before projectId i id runs s' := by
  have hown := hm.others i (Ne.symm hj)
  refine { keys := hkeys.trans hs.keys, flushing := hm.flushing hs.flushing, accepted := ?_, whole := ?_,
           foreign := fun k hk r hr => ?_, saved := ?_, told := ?_ }
  · rw [hown]
    exact hs.accepted
  · rw [hown]
    exact hs.whole
  · by_cases hkj : k = j
    · subst hkj
      rw [(step_effects hm.step).1] at hr
      rcases List.mem_append.1 hr with hr | hr
      · exact hs.foreign k hk r hr
      · exact haccepts r hr
    · rw [hm.others k hkj] at hr
      exact hs.foreign k hk r hr
  · rw [hown, hhandled]
    exact hs.saved
  · rw [hhandled, hrow]
    exact hs.told

/-- A step of the run's process that accepts nothing. -/
theorem runShipped_own {e : FlushEvent RunRecord} (hs : RunShipped tryParse nodeId before projectId i id runs s)
    (hm : LoopMoves s i e s') (haccepts : e.accepts (s.loops i) = []) (hkeys : s'.db.tables.apiKeys = s.db.tables.apiKeys)
    (hsaved : ∃ kept, kept.Sublist (s'.loops i).sends ∧ (delivered (s'.loops i).sends).Sublist kept ∧
      s'.handled i = (kept.map Prod.fst).flatten)
    (htold : RowTold tryParse projectId (nodeId i) id (s'.handled i) (rowOf s'.db id)) :
    RunShipped tryParse nodeId before projectId i id runs s' := by
  obtain ⟨haccepted, -, -, hcompleted⟩ := step_effects hm.step
  rw [haccepts, List.append_nil] at haccepted
  refine { keys := hkeys.trans hs.keys, flushing := hm.flushing hs.flushing, accepted := ?_, whole := fun hopen => ?_,
           foreign := fun k hk => ?_, saved := hsaved, told := htold }
  · rw [haccepted]
    exact hs.accepted
  · rw [haccepted]
    exact hs.whole (hcompleted hopen)
  · rw [hm.others k hk]
    exact hs.foreign k hk

theorem runShipped_report {run : ReportedRun} (hs : RunShipped tryParse nodeId before projectId i id runs s)
    (hm : LoopMoves s i (.tryWrite (toProto (nodeId i) run)) s') (hhandled : s'.handled = s.handled) (hdb : s'.db = s.db) :
    RunShipped tryParse nodeId before projectId i id (runs ++ [run]) s' := by
  obtain ⟨haccepted, hsends, -, hcompleted⟩ := step_effects hm.step
  simp only [FlushEvent.accepts] at haccepted
  simp only [FlushEvent.sends, List.append_nil] at hsends
  refine { keys := by rw [hdb]; exact hs.keys, flushing := hm.flushing hs.flushing, accepted := ?_, whole := fun hopen => ?_,
           foreign := fun k hk => ?_, saved := ?_, told := ?_ }
  · rw [haccepted, List.map_append]
    refine hs.accepted.append ?_
    split
    · exact List.nil_sublist _
    · exact List.Sublist.refl _
  · have hbefore := hcompleted hopen
    rw [haccepted, hs.whole hbefore, List.map_append, hbefore]
    rfl
  · rw [hm.others k hk]
    exact hs.foreign k hk
  · rw [hsends, hhandled]
    exact hs.saved
  · rw [hhandled, hdb]
    exact hs.told

/-- A call that ends without its batch on the dashboard. -/
theorem runShipped_lost {outcome : SendOutcome} (hs : RunShipped tryParse nodeId before projectId i id runs s)
    (hm : LoopMoves s i (.sendReturns outcome) s') (hlost : outcome ≠ .delivered) (hhandled : s'.handled i = s.handled i)
    (hdb : s'.db = s.db) : RunShipped tryParse nodeId before projectId i id runs s' := by
  obtain ⟨kept, hkept, hdelivered, hrecords⟩ := hs.saved
  have hsends := (step_effects hm.step).2.1
  refine runShipped_own hs hm rfl (by rw [hdb]) ⟨kept, ?_, ?_, hhandled.trans hrecords⟩ ?_
  · rw [hsends]
    exact hkept.trans (List.sublist_append_left _ _)
  · rw [hsends]
    simp only [FlushEvent.sends]
    rwa [delivered_snoc_lost _ hlost]
  · rw [hhandled, hdb]
    exact hs.told

/-- The records of a process are those of its reports, in order. -/
theorem RunShipped.grows (hparse : ∀ g, tryParse (guidText g).toList = some g)
    (hs : RunShipped tryParse nodeId before projectId i id runs s) (hnamed : ∀ run ∈ runs, run.id ≠ 0)
    (hgrows : runs.Pairwise fun r r' => r.id = r'.id → Grows r r') :
    (s.handled i ++ (s.loops i).phase.batch).Pairwise (RecordGrows (nodeId i)) ∧
      ∀ r ∈ (s.loops i).phase.batch, ∃ x, toProto (nodeId i) x = r ∧ x.id ≠ 0 := by
  have hall : (runs.map (toProto (nodeId i))).Pairwise (RecordGrows (nodeId i)) := by
    rw [List.pairwise_map]
    refine hgrows.imp fun {x y} hg x' y' hx hy hid => ?_
    have hxx := sentAlike hparse hx.symm
    have hyy := sentAlike hparse hy.symm
    exact grows_congr hxx hyy (hg (hxx.id.trans (hid.trans hyy.id.symm)))
  obtain ⟨kept, hkept, -, hrecords⟩ := hs.saved
  have hsub : (s.handled i ++ (s.loops i).phase.batch).Sublist (s.loops i).accepted := by
    rw [hrecords, ← (hs.flushing i).conserved, FlushLoop.unsent, ← List.append_assoc]
    exact ((hkept.map Prod.fst).flatten.append (List.Sublist.refl _)).trans (List.sublist_append_left _ _)
  refine ⟨hall.sublist (hsub.trans hs.accepted), fun r hr => ?_⟩
  obtain ⟨x, hrun, hx⟩ := List.mem_map.1 ((hsub.trans hs.accepted).subset (List.mem_append_right _ hr))
  exact ⟨x, hx, hnamed x hrun⟩

/-- A batch that is saved, whether or not its answer arrives. -/
theorem runShipped_saved (hparse : ∀ g, tryParse (guidText g).toList = some g) {env : IngestAmbient} {accepted : Bool}
    {outcome : SendOutcome} {apiKey : ApiKey} (hs : RunShipped tryParse nodeId before apiKey.projectId i id runs s)
    (hnamed : ∀ run ∈ runs, run.id ≠ 0) (hgrows : runs.Pairwise fun r r' => r.id = r'.id → Grows r r')
    (hm : LoopMoves s i (.sendReturns outcome) s')
    (hkey : resolveAsync chars s.db.tables (header i) = .ok apiKey)
    (hok : (unaryServerHandler chars tryParse env accepted s.db (header i) (.sendRuns (s.loops i).phase.batch)).1.succeeded = true)
    (hdb : s'.db = (unaryServerHandler chars tryParse env accepted s.db (header i) (.sendRuns (s.loops i).phase.batch)).2)
    (hhandled : s'.handled i = s.handled i ++ (s.loops i).phase.batch) :
    RunShipped tryParse nodeId before apiKey.projectId i id runs s' := by
  obtain ⟨set, hfold, htables⟩ := unaryServerHandler_sendRuns hkey hok
  rw [← hdb] at htables
  obtain ⟨kept, hkept, hdelivered, hrecords⟩ := hs.saved
  have hsends := (step_effects hm.step).2.1
  simp only [FlushEvent.sends] at hsends
  obtain ⟨hpairwise, hsent⟩ := hs.grows hparse hnamed hgrows
  refine runShipped_own hs hm rfl (by rw [htables]) ⟨kept ++ [((s.loops i).phase.batch, outcome)], ?_, ?_, ?_⟩ ?_
  · rw [hsends]
    exact hkept.append (List.Sublist.refl _)
  · rw [hsends, delivered, List.filter_append]
    exact hdelivered.append List.filter_sublist
  · rw [hhandled, hrecords, List.map_append, List.flatten_append]
    simp
  · have htold := batch_told hparse (by rw [rowOf_open]; exact hs.told) hsent hpairwise hfold
    have hrow : rowOf s'.db id = set.find JobRun.id id := by
      unfold rowOf EntitySet.find
      rw [htables]
    rw [hhandled, hrow]
    exact htold

theorem reportsBy_snoc (i : Nat) (es : List RunShippingEvent) (e : RunShippingEvent) :
    reportsBy i (es ++ [e]) = reportsBy i es ++ (e.report i).toList := by
  unfold reportsBy
  rw [List.filterMap_append]
  cases h : e.report i <;> simp [h]

theorem reportsBy_named {es : List RunShippingEvent} (h : ∀ e ∈ es, e.Spares tryParse i id) : ∀ run ∈ reportsBy i es, run.id ≠ 0 := by
  intro run hrun
  obtain ⟨e, he, hreport⟩ := List.mem_filterMap.1 hrun
  cases e with
  | reportRun j run' =>
    simp only [RunShippingEvent.report] at hreport
    split at hreport <;> cases hreport
    exact (h _ he).1
  | turn | sendRuns | sendFails | ingest => cases hreport

/-- The dashboard handles a batch of some process. -/
theorem sendRuns_some {env : IngestAmbient} {accepted : Bool} {outcome : SendOutcome}
    (h : s.step chars tryParse header nodeId (.sendRuns j env accepted outcome) = some s') :
    let handled := unaryServerHandler chars tryParse env accepted s.db (header j) (.sendRuns (s.loops j).phase.batch)
    LoopMoves s j (.sendReturns outcome) s' ∧ s'.db = handled.2 ∧ (outcome = .delivered → handled.1.succeeded = true) ∧
      (∀ k, k ≠ j → s'.handled k = s.handled k) ∧
      s'.handled j = if handled.1.succeeded then s.handled j ++ (s.loops j).phase.batch else s.handled j := by
  simp only [RunShipping.step] at h
  split at h
  · cases h
  · rename_i hanswer
    obtain ⟨hm, hhandled, hdb⟩ := flush_loopMoves h
    refine ⟨⟨hm.step, hm.others⟩, hdb, fun hdelivered => ?_, fun k hk => ?_, ?_⟩
    · by_contra hfail
      exact hanswer ⟨hdelivered, Bool.eq_false_iff.2 hfail⟩
    · rw [hhandled]
      dsimp only
      split
      · exact Function.update_of_ne hk _ _
      · rfl
    · rw [hhandled]
      dsimp only
      split
      · exact Function.update_self ..
      · rfl

theorem runShipped_sendRuns (hparse : ∀ g, tryParse (guidText g).toList = some g) {env : IngestAmbient} {accepted : Bool}
    {outcome : SendOutcome} {apiKey : ApiKey} (hkey : resolveAsync chars before.tables (header i) = .ok apiKey)
    (hs : RunShipped tryParse nodeId before apiKey.projectId i id runs s) (hnamed : ∀ run ∈ runs, run.id ≠ 0)
    (hgrows : runs.Pairwise fun r r' => r.id = r'.id → Grows r r')
    (h : s.step chars tryParse header nodeId (.sendRuns i env accepted outcome) = some s') :
    RunShipped tryParse nodeId before apiKey.projectId i id runs s' := by
  obtain ⟨hm, hdb, hdelivered, -, hhandled⟩ := sendRuns_some h
  have hresolves : resolveAsync chars s.db.tables (header i) = .ok apiKey := (resolveAsync_congr hs.keys).trans hkey
  rcases @unaryServerHandler_cases chars tryParse env accepted s.db (header i) (.sendRuns (s.loops i).phase.batch) with
    ⟨hfail, hsame⟩ | ⟨-, -, hok, -⟩
  · refine runShipped_lost hs hm (fun he => ?_) ?_ (hdb.trans hsame)
    · rw [hdelivered he] at hfail
      cases hfail
    · rw [hhandled, hfail]
      rfl
  · refine runShipped_saved hparse hs hnamed hgrows hm hresolves hok hdb ?_
    rw [hhandled, hok]
    rfl

/-- A batch of another process has no record of the run. -/
theorem runShipped_sendRuns_other {env : IngestAmbient} {accepted : Bool} {outcome : SendOutcome}
    (hs : RunShipped tryParse nodeId before projectId i id runs s) (hj : j ≠ i)
    (h : s.step chars tryParse header nodeId (.sendRuns j env accepted outcome) = some s') :
    RunShipped tryParse nodeId before projectId i id runs s' := by
  obtain ⟨hm, hdb, -, hothers, -⟩ := sendRuns_some h
  have hspares : SparesRun tryParse id env (.sendRuns (s.loops j).phase.batch) := by
    intro r hr
    obtain ⟨hrun, hzero⟩ := hs.foreign j hj r (batch_subset (hs.flushing j) hr)
    exact ⟨hrun, fun he => absurd he hzero⟩
  refine runShipped_other hs hm hj (fun r hr => by cases hr) ?_ (hothers i (Ne.symm hj)) ?_
  · rw [hdb]
    exact unaryServerHandler_apiKeys accepted s.db (header j) _
  · rw [hdb]
    exact rowOf_spared hspares

theorem runShipped_step (hparse : ∀ g, tryParse (guidText g).toList = some g) {apiKey : ApiKey}
    (hkey : resolveAsync chars before.tables (header i) = .ok apiKey) {e : RunShippingEvent}
    (hs : RunShipped tryParse nodeId before apiKey.projectId i id runs s) (hspares : e.Spares tryParse i id)
    (hnamed : ∀ run ∈ runs, run.id ≠ 0) (hgrows : runs.Pairwise fun r r' => r.id = r'.id → Grows r r')
    (h : s.step chars tryParse header nodeId e = some s') :
    RunShipped tryParse nodeId before apiKey.projectId i id (runs ++ (e.report i).toList) s' := by
  have hnone : runs ++ (none : Option ReportedRun).toList = runs := List.append_nil runs
  cases e with
  | reportRun j run =>
    obtain ⟨hm, hhandled, hdb⟩ := flush_loopMoves h
    simp only [RunShippingEvent.report]
    by_cases hj : j = i
    · subst hj
      rw [if_pos rfl]
      exact runShipped_report hs hm hhandled hdb
    · rw [if_neg hj, hnone]
      refine runShipped_other hs hm hj (fun r hr => ?_) (by rw [hdb]) (by rw [hhandled]) (by rw [hdb])
      simp only [FlushEvent.accepts] at hr
      split at hr
      · cases hr
      · -- The other process reports runs of its own.
        rw [List.mem_singleton.1 hr, guid_of_toProto hparse]
        exact ⟨fun he => hj (hspares.2 (Option.some.inj he)), fun he => hspares.1 (Option.some.inj he)⟩
  | turn j ev =>
    simp only [RunShippingEvent.report, hnone]
    simp only [RunShipping.step] at h
    split at h
    · rename_i hturn
      obtain ⟨hm, hhandled, hdb⟩ := flush_loopMoves h
      obtain ⟨haccepts, hsends⟩ := @turn_effects _ (s.loops j) ev hturn
      by_cases hj : j = i
      · subst hj
        refine runShipped_own hs hm haccepts (by rw [hdb]) ?_ ?_
        · rw [(step_effects hm.step).2.1, hsends, List.append_nil, hhandled]
          exact hs.saved
        · rw [hhandled, hdb]
          exact hs.told
      · refine runShipped_other hs hm hj (fun r hr => ?_) (by rw [hdb]) (by rw [hhandled]) (by rw [hdb])
        rw [haccepts] at hr
        cases hr
    · cases h
  | sendRuns j env accepted outcome =>
    simp only [RunShippingEvent.report, hnone]
    by_cases hj : j = i
    · subst hj
      exact runShipped_sendRuns hparse hkey hs hnamed hgrows h
    · exact runShipped_sendRuns_other hs hj h
  | sendFails j cancelled =>
    simp only [RunShippingEvent.report, hnone]
    obtain ⟨hm, hhandled, hdb⟩ := flush_loopMoves h
    by_cases hj : j = i
    · subst hj
      have hlost : (if cancelled then SendOutcome.cancelled else .failed) ≠ .delivered := by cases cancelled <;> decide
      exact runShipped_lost hs hm hlost (by rw [hhandled]) hdb
    · exact runShipped_other hs hm hj (fun r hr => by cases hr) (by rw [hdb]) (by rw [hhandled]) (by rw [hdb])
  | ingest env accepted head call =>
    simp only [RunShippingEvent.report, hnone]
    cases h
    refine { hs with keys := ?_, told := ?_ }
    · exact (unaryServerHandler_apiKeys accepted s.db head call).trans hs.keys
    · dsimp only
      rw [rowOf_spared hspares]
      exact hs.told

/-- What the dashboard saved of a process is not taken back. -/
theorem handled_step {e : RunShippingEvent} (h : s.step chars tryParse header nodeId e = some s') (i : Nat) :
    s.handled i <+: s'.handled i := by
  cases e with
  | reportRun j run | sendFails j cancelled =>
    obtain ⟨-, hhandled, -⟩ := flush_loopMoves h
    rw [hhandled]
  | turn j ev =>
    simp only [RunShipping.step] at h
    split at h
    · obtain ⟨-, hhandled, -⟩ := flush_loopMoves h
      rw [hhandled]
    · cases h
  | sendRuns j env accepted outcome =>
    obtain ⟨-, -, -, hothers, hhandled⟩ := sendRuns_some h
    by_cases hj : i = j
    · subst hj
      rw [hhandled]
      split
      · exact List.prefix_append _ _
      · exact List.prefix_rfl
    · rw [hothers i hj]
  | ingest env accepted head call =>
    cases h
    exact List.prefix_rfl

theorem runShipped_initial (hnew : rowOf before id = none) :
    RunShipped tryParse nodeId before projectId i id [] (.initial before) where
  keys := rfl
  flushing _ := flushing_start 100
  accepted := List.Sublist.refl _
  whole _ := rfl
  foreign _ _ _ hr := by cases hr
  saved := ⟨[], List.Sublist.refl _, List.Sublist.refl _, rfl⟩
  told := hnew

theorem runShipped_exec (hparse : ∀ g, tryParse (guidText g).toList = some g) {apiKey : ApiKey}
    (hkey : resolveAsync chars before.tables (header i) = .ok apiKey) (hnew : rowOf before id = none) {es : List RunShippingEvent}
    (hspares : ∀ e ∈ es, e.Spares tryParse i id) (hgrows : (reportsBy i es).Pairwise fun r r' => r.id = r'.id → Grows r r')
    (hrun : exec (RunShipping.step chars tryParse header nodeId) (.initial before) es = some s) :
    RunShipped tryParse nodeId before apiKey.projectId i id (reportsBy i es) s := by
  have hinv : (∀ e ∈ es, e.Spares tryParse i id) → ((reportsBy i es).Pairwise fun r r' => r.id = r'.id → Grows r r') →
      RunShipped tryParse nodeId before apiKey.projectId i id (reportsBy i es) s := by
    apply exec_history (fun es s => (∀ e ∈ es, e.Spares tryParse i id) →
      ((reportsBy i es).Pairwise fun r r' => r.id = r'.id → Grows r r') →
      RunShipped tryParse nodeId before apiKey.projectId i id (reportsBy i es) s) _ _ hrun
    · intro es s e s' ih hstep hall hgrows
      obtain ⟨hall, he⟩ := List.forall_mem_append.1 hall
      rw [reportsBy_snoc] at hgrows ⊢
      have hbefore := (List.pairwise_append.1 hgrows).1
      exact runShipped_step hparse hkey (ih hall hbefore) (he e (List.mem_singleton_self e)) (reportsBy_named hall) hbefore hstep
    · exact fun _ _ => runShipped_initial hnew
  exact hinv hspares hgrows

theorem RunShipped.handled_sublist (hs : RunShipped tryParse nodeId before projectId i id runs s) :
    (s.handled i).Sublist (runs.map (toProto (nodeId i))) := by
  obtain ⟨kept, hkept, -, hrecords⟩ := hs.saved
  refine List.Sublist.trans ?_ hs.accepted
  rw [hrecords, ← (hs.flushing i).conserved]
  exact ((hkept.map Prod.fst).flatten).trans (List.sublist_append_left _ _)

theorem RunShipped.row_none (hs : RunShipped tryParse nodeId before projectId i id runs s)
    (hlast : lastRecord tryParse id (s.handled i) = none) : rowOf s.db id = none := by
  have htold := hs.told
  unfold RowTold at htold
  rw [hlast] at htold
  exact htold

theorem RunShipped.row_some (hparse : ∀ g, tryParse (guidText g).toList = some g)
    (hs : RunShipped tryParse nodeId before projectId i id runs s) {r : RunRecord}
    (hlast : lastRecord tryParse id (s.handled i) = some r) : ∃ run ∈ runs, run.id = id ∧ toProto (nodeId i) run = r ∧
      ∃ row, rowOf s.db id = some row ∧ Shows projectId (nodeId i) run row := by
  have htold := hs.told
  unfold RowTold at htold
  rw [hlast] at htold
  obtain ⟨row, hrow, x, hx, hshows⟩ := htold
  obtain ⟨hmem, hrid⟩ := lastRecord_mem hlast
  -- Some report was sent as that record; another of the same record says the same.
  obtain ⟨run, hrun, hsent⟩ := List.mem_map.1 (hs.handled_sublist.subset hmem)
  have halike := sentAlike hparse (hx.trans hsent.symm)
  have hid : x.id = id := by
    rw [← hx, guid_of_toProto hparse] at hrid
    exact Option.some.inj hrid
  exact ⟨run, hrun, halike.id.symm.trans hid, hsent, row, hrow, shows_congr (hx.trans hsent.symm) halike hshows⟩

/-- In every run of any number of processes that report and flush, and of the
other calls of the service: the dashboard has saved a part of what the process
reported, in order, with every batch that was answered, and never takes it back.
The row of a run says what the last snapshot saved of it said, all of it; and
while every batch is answered and the channel open, only what is still to be
sent is missing. -/
theorem runs_survive_lost_sends (chars : CharTable) (tryParse : Text → Option Guid) (header : Nat → Option Text)
    (nodeId : Nat → Text) (hparse : ∀ g, tryParse (guidText g).toList = some g) (before : IngestDb) (i : Nat) (apiKey : ApiKey)
    (hkey : resolveAsync chars before.tables (header i) = .ok apiKey) (id : Guid) (hnew : rowOf before id = none)
    (es : List RunShippingEvent) (s : RunShipping) (hspares : ∀ e ∈ es, e.Spares tryParse i id)
    (hgrows : (reportsBy i es).Pairwise fun r r' => r.id = r'.id → Grows r r')
    (hrun : exec (RunShipping.step chars tryParse header nodeId) (.initial before) es = some s) :
    let loop := s.loops i
    let records := (reportsBy i es).map (toProto (nodeId i))
    (s.handled i).Sublist records ∧ ((delivered loop.sends).map Prod.fst).flatten.Sublist (s.handled i) ∧
      (lastRecord tryParse id (s.handled i) = none → rowOf s.db id = none) ∧
      (∀ r, lastRecord tryParse id (s.handled i) = some r → ∃ run ∈ reportsBy i es, run.id = id ∧
        toProto (nodeId i) run = r ∧ ∃ row, rowOf s.db id = some row ∧ Shows apiKey.projectId (nodeId i) run row) ∧
      ((∀ m ∈ loop.sends, m.2 = .delivered) → loop.completed = false → s.handled i ++ loop.unsent = records) ∧
      ∀ fs s', exec (RunShipping.step chars tryParse header nodeId) s fs = some s' → s.handled i <+: s'.handled i := by
  intro loop records
  have hs := runShipped_exec hparse hkey hnew hspares hgrows hrun
  refine ⟨hs.handled_sublist, ?_, hs.row_none, fun r hlast => hs.row_some hparse hlast, fun hall hopen => ?_, fun fs s' hcontinued => ?_⟩
  · obtain ⟨kept, -, hdelivered, hrecords⟩ := hs.saved
    rw [hrecords]
    exact (hdelivered.map Prod.fst).flatten
  · -- Every batch was answered, so none was left out.
    obtain ⟨kept, hkept, hdelivered, hrecords⟩ := hs.saved
    have hdel : delivered loop.sends = loop.sends := List.filter_eq_self.2 fun m hm => by simpa using hall m hm
    have hkeptAll : kept = loop.sends := hkept.antisymm (hdel ▸ hdelivered)
    have hwhole : (s.loops i).accepted = records := hs.whole hopen
    rw [hrecords, hkeptAll, ← hwhole]
    exact (hs.flushing i).conserved
  · refine exec_inv (fun t => s.handled i <+: t.handled i) (fun t e t' ht hstep => ?_) List.prefix_rfl hcontinued
    exact ht.trans (handled_step hstep i)

end Steps

/-! ## A lost message -/

/-- The message with the first report is lost, the answer to the second too, and another process reports meanwhile. -/
def lostMessage : List RunShippingEvent :=
  [.reportRun 0 pendingSync, .turn 0 .wake, .turn 0 .tryRead, .turn 0 .tryRead, .reportRun 0 runningSync, .sendFails 0 false,
    .turn 0 .delayEnds, .turn 0 .wake, .turn 0 .tryRead, .turn 0 .tryRead,
    .ingest tenantEnv true (some "k2".toList) (.sendRuns []), .sendRuns 0 tenantEnv true .failed]

def keyAndNode (text : String) (_ : Nat) : Text := text.toList

def runLostMessage : Option RunShipping :=
  exec (RunShipping.step ascii tryParseHyphenated (fun i => some (keyAndNode "k1" i)) (keyAndNode "n1")) (.initial twoTenants)
    lostMessage

theorem lostMessage_spares : ∀ e ∈ lostMessage, e.Spares tryParseHyphenated 0 7 := by
  intro e he
  fin_cases he <;> simp [RunShippingEvent.Spares, SparesRun] <;> decide

theorem lostMessage_grows : (reportsBy 0 lostMessage).Pairwise fun r r' => r.id = r'.id → Grows r r' := by
  have hreports : reportsBy 0 lostMessage = [pendingSync, runningSync] := rfl
  rw [hreports]
  exact List.pairwise_pair.2 fun _ =>
    { createdAt := rfl, startedAt := nofun, finishedAt := nofun, errorMessage := by decide, errorStackTrace := by decide }

theorem runs_survive_lostMessage :
    ∃ s, runLostMessage = some s ∧ ∃ row, rowOf s.db 7 = some row ∧ row.state = "Running".toList ∧ row.nodeId = "n1".toList := by
  have hsome : runLostMessage.isSome = true := by decide +kernel
  have hall : runLostMessage.all (fun s =>
      (s.handled 0).map (fun r => (tryParseHyphenated r.id, r.state)) = [(some 7, "Running".toList)]) = true := by
    decide +kernel
  obtain ⟨s, hs⟩ := Option.isSome_iff_exists.1 hsome
  rw [hs] at hall
  obtain ⟨r, hhandled, hr⟩ := List.map_eq_singleton_iff.1 (of_decide_eq_true hall)
  obtain ⟨hid, hstate⟩ := Prod.mk.inj hr
  have hlast : lastRecord tryParseHyphenated 7 (s.handled 0) = some r := by
    rw [hhandled, lastRecord, List.filter_cons_of_pos (by simpa using hid)]
    rfl
  obtain ⟨-, -, -, htold, -⟩ := runs_survive_lost_sends ascii tryParseHyphenated (fun i => some (keyAndNode "k1" i)) (keyAndNode "n1")
    tryParse_guidText twoTenants 0 keyOfOne resolveAsync_k1 7 (by decide +kernel) lostMessage s lostMessage_spares
    lostMessage_grows hs
  obtain ⟨run, -, -, hsent, row, hrow, hshows⟩ := htold r hlast
  exact ⟨s, hs, row, hrow, hshows.state.trans ((congrArg RunRecord.state hsent).trans hstate), hshows.nodeId⟩

end DuckRun.Reporting
