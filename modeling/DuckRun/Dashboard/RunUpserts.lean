import DuckRun.Dashboard.Ingest
import DuckRun.Lib.Folds
/-!
# The run upsert

What `SendRuns` does to the row of one run: a batch is its records one after
the other, and a record touches the row with its id and no other.
-/

namespace DuckRun.Dashboard

open DuckRun.Lib

/-- The row of a record's run after the record, from its row before. -/
def upserted (projectId : Guid) (now : DateTime) (id : Guid) (r : RunRecord) (createdAt startedAt finishedAt : Option DateTime) :
    Option JobRun → JobRun
  | none =>
    { id := id, projectId := projectId, jobName := r.jobName, nodeId := r.nodeId, createdAt := createdAt.getD now,
      startedAt := startedAt, finishedAt := finishedAt, state := r.state, triggerSource := r.triggerSource,
      errorMessage := nullIfEmpty r.errorMessage, errorStackTrace := nullIfEmpty r.errorStackTrace, receivedAt := now }
  | some existing =>
    { existing with
      jobName := r.jobName
      nodeId := r.nodeId
      startedAt := startedAt.or existing.startedAt
      finishedAt := finishedAt.or existing.finishedAt
      state := r.state
      triggerSource := r.triggerSource
      errorMessage := (nullIfEmpty r.errorMessage).or existing.errorMessage
      errorStackTrace := (nullIfEmpty r.errorStackTrace).or existing.errorStackTrace
      receivedAt := now }

theorem find_add {set : EntitySet JobRun} {row : JobRun} (h : set.find JobRun.id row.id = none) (k : Guid) :
    (set.add row).find JobRun.id k = if k = row.id then some row else set.find JobRun.id k := by
  unfold EntitySet.find at h ⊢
  rw [EntitySet.saved_add, List.find?_append]
  by_cases hk : k = row.id
  · subst hk
    simp [h]
  · simp [hk, Ne.symm hk]

theorem find_modify {set : EntitySet JobRun} {f : JobRun → JobRun} (hf : ∀ r, (f r).id = r.id) (id k : Guid) :
    (set.modify JobRun.id id f).find JobRun.id k =
      if k = id then (set.find JobRun.id id).map f else set.find JobRun.id k := by
  unfold EntitySet.find
  rw [EntitySet.saved_modify, find_updateKey hf]

section Upserts
variable {tryParse : Text → Option Guid} {env : IngestAmbient} {projectId : Guid}

/-- One round, on a record whose fields convert. -/
theorem sendRun_find {now : DateTime} {set set' : EntitySet JobRun} {r : RunRecord} {index : Nat} {id : Guid}
    {createdAt startedAt finishedAt : Option DateTime} (hid : tryParse r.id = some id) (hne : id ≠ 0)
    (hcreated : toDateTime? r.createdAt = .ok createdAt) (hstarted : toDateTime? r.startedAt = .ok startedAt)
    (hfinished : toDateTime? r.finishedAt = .ok finishedAt)
    (h : sendRun tryParse env projectId now set (r, index) = .ok set') (k : Guid) :
    set'.find JobRun.id k =
      if k = id then some (upserted projectId now id r createdAt startedAt finishedAt (set.find JobRun.id id))
      else set.find JobRun.id k := by
  unfold sendRun at h
  simp only [hid] at h
  cases hf : set.find JobRun.id id with
  -- No row of that id, stored or added earlier in the batch.
  | none =>
    simp only [hf, hcreated, hstarted, hfinished] at h
    cases h
    rw [find_add]
    · simp only [if_neg hne]
      rfl
    · simp only [if_neg hne]
      exact hf
  | some existing =>
    simp only [hf, hstarted, hfinished] at h
    cases h
    rw [find_modify, hf]
    · rfl
    · exact fun _ => rfl

/-- What a call of `SendRuns` saved. -/
theorem sendRuns_saved {t t' : IngestTables} {runs : List RunRecord} {reply : Reply}
    (h : sendRuns tryParse env projectId t runs = .ok (t', reply)) :
    ∃ set, runs.zipIdx.foldlM (sendRun tryParse env projectId (env.clock 0)) (.open_ t.jobRuns) = .ok set ∧
      t' = { t with jobRuns := set.saved } := by
  unfold sendRuns at h
  obtain ⟨set, hfold, h⟩ := except_bind_ok.1 h
  cases h
  exact ⟨set, hfold, rfl⟩

end Upserts

/-- The interceptor looks at the keys only. -/
theorem resolveAsync_congr {chars : CharTable} {t t' : IngestTables} {header : Option Text} (h : t.apiKeys = t'.apiKeys) :
    resolveAsync chars t header = resolveAsync chars t' header := by
  unfold resolveAsync
  rw [h]

/-- A successful `SendRuns` through the interceptor. -/
theorem unaryServerHandler_sendRuns {chars : CharTable} {tryParse : Text → Option Guid} {env : IngestAmbient}
    {accepted : Bool} {db : IngestDb} {header : Option Text} {runs : List RunRecord} {apiKey : ApiKey}
    (hkey : resolveAsync chars db.tables header = .ok apiKey)
    (h : (unaryServerHandler chars tryParse env accepted db header (.sendRuns runs)).1.succeeded = true) :
    ∃ set, runs.zipIdx.foldlM (sendRun tryParse env apiKey.projectId (env.clock 0)) (.open_ db.tables.jobRuns) = .ok set ∧
      (unaryServerHandler chars tryParse env accepted db header (.sendRuns runs)).2.tables =
        { db.tables with jobRuns := set.saved } := by
  unfold unaryServerHandler at h ⊢
  rw [hkey] at h ⊢
  simp only [Except.bind, resolveProject] at h ⊢
  split at h
  · cases h
  · rename_i t reply hrun
    split at h
    · cases h
    · rename_i db' hsaved
      obtain ⟨set, hfold, rfl⟩ := sendRuns_saved hrun
      exact ⟨set, hfold, IngestDb.saveChanges_some hsaved⟩

end DuckRun.Dashboard
