import DuckRun.Dashboard.RunUpserts
import DuckRun.Dashboard.Tenants
import DuckRun.Lib.Upserts
/-!
# The algebra of the run upsert

`SendRuns` as a batch of keyed upserts: what it does to the table of runs is
what its records do to their rows. So a batch may be cut in two, be sent
again, and trade places with a batch of other runs, as long as no record has
the empty id (EF Core would save it under a key of its own drawing) and, to be
cut, as long as its timestamps convert (one that does not rejects the batch
it is in).
-/

namespace DuckRun.Dashboard

open DuckRun.Lib

/-- A record merged into the row of its run, or the row it starts. -/
def mergeRun (projectId : Guid) (now : DateTime) (id : Guid) (row : Option JobRun) (r : RunRecord) : Except String JobRun := do
  -- The creation time is converted for a new row only.
  let createdAt ← if row.isNone then toDateTime? r.createdAt else pure none
  let startedAt ← toDateTime? r.startedAt
  let finishedAt ← toDateTime? r.finishedAt
  return upserted projectId now id r createdAt startedAt finishedAt row

/-- The records of a batch that parse, under their ids. -/
def parsedRuns (tryParse : Text → Option Guid) (runs : List RunRecord) : List (Guid × RunRecord) :=
  runs.filterMap fun r => (tryParse r.id).map fun id => (id, r)

section Batches
variable {tryParse : Text → Option Guid} {env : IngestAmbient} {projectId : Guid}

/-- The set of a batch in progress: its rows by id, no id twice. -/
structure Holding (set : EntitySet JobRun) (rows : Guid → Option JobRun) : Prop where
  find : ∀ k, set.find JobRun.id k = rows k
  ids : (set.saved.map JobRun.id).Nodup

theorem holding_add {set : EntitySet JobRun} {rows : Guid → Option JobRun} (h : Holding set rows) {row : JobRun}
    (hnone : rows row.id = none) : Holding (set.add row) (Function.update rows row.id (some row)) := by
  have hfind : set.find JobRun.id row.id = none := (h.find row.id).trans hnone
  constructor
  · intro k
    rw [find_add hfind, Function.update_apply, h.find]
  · rw [EntitySet.saved_add, List.map_append, List.nodup_append]
    refine ⟨h.ids, List.nodup_singleton _, fun a ha b hb he => ?_⟩
    obtain ⟨e, he', rfl⟩ := List.mem_map.1 ha
    obtain rfl : b = row.id := by simpa using hb
    exact EntitySet.find_none hfind e he' he

theorem holding_modify {set : EntitySet JobRun} {rows : Guid → Option JobRun} (h : Holding set rows) {id : Guid}
    {existing : JobRun} (hsome : rows id = some existing) {f : JobRun → JobRun} (hf : ∀ r, (f r).id = r.id) :
    Holding (set.modify JobRun.id id f) (Function.update rows id (some (f existing))) := by
  constructor
  · intro k
    rw [find_modify hf, Function.update_apply, h.find, h.find, hsome]
    rfl
  · rw [EntitySet.saved_modify, map_updateKey hf]
    exact h.ids

/-- One round of the call is one upsert. -/
theorem sendRun_inStep {now : DateTime} {set : EntitySet JobRun} {rows : Guid → Option JobRun} (hs : Holding set rows)
    {r : RunRecord} {id : Guid} (index : Nat) (hid : tryParse r.id = some id) (hne : id ≠ 0) :
    InStep Holding (sendRun tryParse env projectId now set (r, index)) (upsertOne (mergeRun projectId now) rows (id, r)) := by
  unfold sendRun upsertOne mergeRun
  simp only [hid, hs.find id, if_neg hne]
  cases hrow : rows id with
  | none =>
    simp only [Option.isNone_none, if_true, bind_assoc, pure_bind]
    refine (InStep.refl _).bind fun createdAt _ hc => (InStep.refl _).bind fun startedAt _ hst =>
      (InStep.refl _).bind fun finishedAt _ hf => ?_
    subst hc hst hf
    exact .ok (holding_add hs hrow)
  | some existing =>
    simp only [Option.isNone_some, Bool.false_eq_true, if_false, bind_assoc, pure_bind]
    refine (InStep.refl _).bind fun startedAt _ hst => (InStep.refl _).bind fun finishedAt _ hf => ?_
    subst hst hf
    exact .ok (holding_modify hs hrow fun _ => rfl)

/-- The whole call is its parsed records as one batch. -/
theorem sendRuns_inStep {now : DateTime} {set : EntitySet JobRun} {rows : Guid → Option JobRun} (hs : Holding set rows)
    (runs : List RunRecord) (hne : ∀ r ∈ runs, tryParse r.id ≠ some 0) (index : Nat) :
    InStep Holding ((runs.zipIdx index).foldlM (sendRun tryParse env projectId now) set)
      (upsertAll (mergeRun projectId now) rows (parsedRuns tryParse runs)) := by
  induction runs generalizing set rows index with
  | nil => exact .ok hs
  | cons r runs ih =>
    have hrest := fun x hx => hne x (List.mem_cons_of_mem _ hx)
    rw [List.zipIdx_cons, List.foldlM_cons, parsedRuns]
    cases hid : tryParse r.id with
    | none =>
      have hskip : sendRun tryParse env projectId now set (r, index) = .ok set := by
        simp only [sendRun, hid]
        rfl
      rw [hskip, List.filterMap_cons_none (by rw [hid]; rfl)]
      exact ih hs hrest (index + 1)
    | some id =>
      have h0 : id ≠ 0 := fun h => hne r List.mem_cons_self (h ▸ hid)
      rw [List.filterMap_cons_some (by rw [hid]; rfl), upsertAll, List.foldlM_cons]
      exact (sendRun_inStep hs index hid h0).bind fun set' rows' hs' => ih hs' hrest (index + 1)

end Batches

/-! ## One row through its records -/

/-- What records write over a row: of a field that is always sent the last value,
of one that may be missing the last value that was sent. -/
structure RunPatch where
  jobName : Text
  nodeId : Text
  startedAt : Option DateTime
  finishedAt : Option DateTime
  state : Text
  triggerSource : Text
  errorMessage : Option Text
  errorStackTrace : Option Text
  receivedAt : DateTime

namespace RunPatch

def apply (p : RunPatch) (row : JobRun) : JobRun :=
  { row with
    jobName := p.jobName
    nodeId := p.nodeId
    startedAt := p.startedAt.or row.startedAt
    finishedAt := p.finishedAt.or row.finishedAt
    state := p.state
    triggerSource := p.triggerSource
    errorMessage := p.errorMessage.or row.errorMessage
    errorStackTrace := p.errorStackTrace.or row.errorStackTrace
    receivedAt := p.receivedAt }

/-- First `p`, then `q`. -/
def andThen (p q : RunPatch) : RunPatch :=
  { q with
    startedAt := q.startedAt.or p.startedAt
    finishedAt := q.finishedAt.or p.finishedAt
    errorMessage := q.errorMessage.or p.errorMessage
    errorStackTrace := q.errorStackTrace.or p.errorStackTrace }

@[simp] theorem apply_andThen (p q : RunPatch) (row : JobRun) : (p.andThen q).apply row = q.apply (p.apply row) := by
  simp only [andThen, apply, Option.or_assoc]

@[simp] theorem apply_apply (p : RunPatch) (row : JobRun) : p.apply (p.apply row) = p.apply row := by
  have hor : ∀ {β : Type} (x y : Option β), x.or (x.or y) = x.or y := fun x y => by rw [← Option.or_assoc, Option.or_self]
  simp only [apply, hor]

/-- The patch of a record whose times convert. -/
def ofRecord (now : DateTime) (r : RunRecord) (startedAt finishedAt : Option DateTime) : RunPatch :=
  ⟨r.jobName, r.nodeId, startedAt, finishedAt, r.state, r.triggerSource, nullIfEmpty r.errorMessage,
    nullIfEmpty r.errorStackTrace, now⟩

end RunPatch

section Rows
variable {projectId : Guid} {now : DateTime} {id : Guid}

/-- A record patches every row alike. -/
theorem mergeRun_some {row row' : JobRun} {r : RunRecord} (h : mergeRun projectId now id (some row) r = .ok row') :
    ∃ p : RunPatch, ∀ x, mergeRun projectId now id (some x) r = .ok (p.apply x) := by
  obtain ⟨_, -, h⟩ := except_bind_ok.1 h
  obtain ⟨startedAt, hst, h⟩ := except_bind_ok.1 h
  obtain ⟨finishedAt, hf, -⟩ := except_bind_ok.1 h
  refine ⟨.ofRecord now r startedAt finishedAt, fun x => ?_⟩
  simp only [mergeRun, hst, hf]
  rfl

/-- A record starts a row as a patch of one without values. -/
theorem mergeRun_none {row : JobRun} {r : RunRecord} (h : mergeRun projectId now id none r = .ok row) :
    ∃ blank, mergeRun projectId now id (some blank) r = .ok row := by
  obtain ⟨createdAt, -, h⟩ := except_bind_ok.1 h
  obtain ⟨startedAt, hst, h⟩ := except_bind_ok.1 h
  obtain ⟨finishedAt, hf, h⟩ := except_bind_ok.1 h
  cases h
  refine ⟨⟨id, projectId, [], [], createdAt.getD now, none, none, [], [], none, none, now⟩, ?_⟩
  simp only [mergeRun, hst, hf, upserted]
  simp [bind, Except.bind, pure, Except.pure]

theorem mergeAll_cons {row row' : Option JobRun} {r : RunRecord} {rs : List RunRecord} :
    mergeAll (mergeRun projectId now) id row (r :: rs) = .ok row' ↔
      ∃ x, mergeRun projectId now id row r = .ok x ∧ mergeAll (mergeRun projectId now) id (some x) rs = .ok row' := by
  rw [mergeAll, List.foldlM_cons, except_bind_ok]
  constructor
  · rintro ⟨o, ho, h⟩
    cases hx : mergeRun projectId now id row r with
    | error e => rw [hx] at ho; cases ho
    | ok x =>
      rw [hx] at ho
      cases ho
      exact ⟨x, rfl, h⟩
  · rintro ⟨x, hx, h⟩
    exact ⟨some x, by rw [hx]; rfl, h⟩

/-- So do all the records of a run. -/
theorem mergeAll_some {row : JobRun} {row' : Option JobRun} {r : RunRecord} {rs : List RunRecord}
    (h : mergeAll (mergeRun projectId now) id (some row) (r :: rs) = .ok row') :
    ∃ p : RunPatch, ∀ x, mergeAll (mergeRun projectId now) id (some x) (r :: rs) = .ok (some (p.apply x)) := by
  induction rs generalizing r row with
  | nil =>
    obtain ⟨y, hy, -⟩ := mergeAll_cons.1 h
    obtain ⟨p, hp⟩ := mergeRun_some hy
    exact ⟨p, fun x => mergeAll_cons.2 ⟨_, hp x, rfl⟩⟩
  | cons r' rs ih =>
    obtain ⟨y, hy, h⟩ := mergeAll_cons.1 h
    obtain ⟨p, hp⟩ := mergeRun_some hy
    obtain ⟨q, hq⟩ := ih h
    refine ⟨p.andThen q, fun x => mergeAll_cons.2 ⟨_, hp x, ?_⟩⟩
    rw [RunPatch.apply_andThen]
    exact hq _

/-- A row that went through records goes through them again unchanged. -/
theorem mergeAll_idem {row row' : Option JobRun} {rs : List RunRecord}
    (h : mergeAll (mergeRun projectId now) id row rs = .ok row') :
    mergeAll (mergeRun projectId now) id row' rs = .ok row' := by
  cases rs with
  | nil => rfl
  | cons r rs =>
    have hsome : ∃ x, mergeAll (mergeRun projectId now) id (some x) (r :: rs) = .ok row' := by
      cases row with
      | some x => exact ⟨x, h⟩
      | none =>
        obtain ⟨y, hy, h⟩ := mergeAll_cons.1 h
        obtain ⟨blank, hblank⟩ := mergeRun_none hy
        exact ⟨blank, mergeAll_cons.2 ⟨y, hblank, h⟩⟩
    obtain ⟨x, hx⟩ := hsome
    obtain ⟨p, hp⟩ := mergeAll_some hx
    have hrow : row' = some (p.apply x) := Except.ok.inj (hx.symm.trans (hp x))
    rw [hrow, hp, RunPatch.apply_apply]

end Rows

/-! ## Whole calls -/

/-- The stored runs by id. -/
def IngestDb.runs (db : IngestDb) : Guid → Option JobRun := fun k => db.tables.jobRuns.find? fun r => r.id = k

theorem IngestDb.nodup_runs (db : IngestDb) : (db.tables.jobRuns.map JobRun.id).Nodup := by
  have hkeyed := db.keyed
  simp only [IngestTables.keysOk, Bool.and_eq_true, decide_eq_true_eq] at hkeyed
  exact hkeyed.1.1.1.1.1.1.1

/-- The same tables, the rows of runs in any order and their `ReceivedAt` left out. -/
def SameStore (db db' : IngestDb) : Prop :=
  { db.tables with jobRuns := [] } = { db'.tables with jobRuns := [] } ∧
    (db.tables.jobRuns.map fun r => { r with receivedAt := 0 }).Perm
      (db'.tables.jobRuns.map fun r => { r with receivedAt := 0 })

instance (db db' : IngestDb) : Decidable (SameStore db db') := by unfold SameStore; infer_instance

/-- The store after a call of `SendRuns` that the database accepts. -/
def afterSendRuns (chars : CharTable) (tryParse : Text → Option Guid) (header : Option Text) (env : IngestAmbient)
    (db : IngestDb) (runs : List RunRecord) : IngestDb :=
  (unaryServerHandler chars tryParse env true db header (.sendRuns runs)).2

section Calls
variable {chars : CharTable} {tryParse : Text → Option Guid} {header : Option Text}

theorem sameStore_of_runs {db db' : IngestDb} (ht : { db.tables with jobRuns := [] } = { db'.tables with jobRuns := [] })
    (hr : db.runs = db'.runs) : SameStore db db' := by
  refine ⟨ht, List.Perm.map _ ?_⟩
  refine (List.perm_ext_iff_of_nodup (db.nodup_runs.of_map _) (db'.nodup_runs.of_map _)).2 fun r => ?_
  have hrow := congrFun hr r.id
  have h1 := find_row_iff db.nodup_runs r.id r
  have h2 := find_row_iff db'.nodup_runs r.id r
  simp only [and_true] at h1 h2
  rw [← h1, ← h2]
  exact iff_of_eq (congrArg (· = some r) hrow)

/-- A call saves its batch in the table of runs, and nothing else. -/
theorem afterSendRuns_spec {db : IngestDb} {apiKey : ApiKey} (hkey : resolveAsync chars db.tables header = .ok apiKey)
    {runs : List RunRecord} (hne : ∀ r ∈ runs, tryParse r.id ≠ some 0) (env : IngestAmbient) :
    { (afterSendRuns chars tryParse header env db runs).tables with jobRuns := [] } = { db.tables with jobRuns := [] } ∧
      (afterSendRuns chars tryParse header env db runs).runs =
        commitAll (mergeRun apiKey.projectId (env.clock 0)) db.runs (parsedRuns tryParse runs) := by
  have h0 : Holding (.open_ db.tables.jobRuns) db.runs := by
    refine ⟨fun k => ?_, ?_⟩
    · rw [EntitySet.find, EntitySet.saved_open]
      rfl
    · rw [EntitySet.saved_open]
      exact db.nodup_runs
  have hstep : InStep Holding
      (runs.zipIdx.foldlM (sendRun tryParse env apiKey.projectId (env.clock 0)) (.open_ db.tables.jobRuns))
      (upsertAll (mergeRun apiKey.projectId (env.clock 0)) db.runs (parsedRuns tryParse runs)) :=
    sendRuns_inStep h0 runs hne 0
  unfold afterSendRuns unaryServerHandler
  rw [hkey]
  simp only [Except.bind, resolveProject, run, sendRuns]
  generalize hset : runs.zipIdx.foldlM (sendRun tryParse env apiKey.projectId (env.clock 0)) (.open_ db.tables.jobRuns) =
    result at hstep ⊢
  generalize hrows : upsertAll (mergeRun apiKey.projectId (env.clock 0)) db.runs (parsedRuns tryParse runs) =
    rows at hstep
  cases hstep with
  | error e =>
    rw [commitAll, hrows]
    exact ⟨rfl, rfl⟩
  | @ok set rows hs =>
    have hkeys : IngestTables.keysOk { db.tables with jobRuns := set.saved } = true := by
      have hkeyed := db.keyed
      simp only [IngestTables.keysOk, Bool.and_eq_true, decide_eq_true_eq] at hkeyed ⊢
      exact ⟨⟨⟨⟨⟨⟨⟨hs.ids, hkeyed.1.1.1.1.1.1.2⟩, hkeyed.1.1.1.1.1.2⟩, hkeyed.1.1.1.1.2⟩, hkeyed.1.1.1.2⟩, hkeyed.1.1.2⟩,
        hkeyed.1.2⟩, hkeyed.2⟩
    have hsave : IngestDb.saveChanges true { db.tables with jobRuns := set.saved } =
        some ⟨{ db.tables with jobRuns := set.saved }, hkeys⟩ := by
      rw [IngestDb.saveChanges, dif_pos hkeys, if_pos rfl]
    simp only [bind, Except.bind, pure, Except.pure, hsave]
    refine ⟨trivial, ?_⟩
    rw [commitAll_ok hrows]
    exact funext hs.find

/-- A call that is not let in saves nothing. -/
theorem afterSendRuns_refused {db : IngestDb} {e : Reply} (hkey : resolveAsync chars db.tables header = .error e)
    (env : IngestAmbient) (runs : List RunRecord) : afterSendRuns chars tryParse header env db runs = db := by
  unfold afterSendRuns unaryServerHandler
  rw [hkey]
  rfl

end Calls

/-! ## The laws -/

/-- The times that the call converts of a record do convert; its creation time
is one of them only where its run has no row. -/
structure RunRecord.Converts (r : RunRecord) (hasRow : Prop) : Prop where
  createdAt : hasRow ∨ ∃ d, toDateTime? r.createdAt = .ok d
  startedAt : ∃ d, toDateTime? r.startedAt = .ok d
  finishedAt : ∃ d, toDateTime? r.finishedAt = .ok d

/-- Every record that parses converts at its turn: its run has a row if there is one
in the table, or an earlier record of the batch is of that run. -/
def AllConvert (tryParse : Text → Option Guid) (db : IngestDb) (runs : List RunRecord) : Prop :=
  ∀ before r after, runs = before ++ r :: after → ∀ id, tryParse r.id = some id →
    r.Converts ((db.runs id).isSome ∨ ∃ q ∈ before, tryParse q.id = some id)

theorem mergeRun_total {projectId id : Guid} {now : DateTime} {r : RunRecord} {row : Option JobRun}
    (h : r.Converts (row ≠ none)) : ∃ row', mergeRun projectId now id row r = .ok row' := by
  obtain ⟨startedAt, hst⟩ := h.startedAt
  obtain ⟨finishedAt, hf⟩ := h.finishedAt
  unfold mergeRun
  cases row with
  | none =>
    obtain ⟨createdAt, hc⟩ := h.createdAt.resolve_left (· rfl)
    rw [hc, hst, hf]
    exact ⟨_, rfl⟩
  | some existing =>
    rw [hst, hf]
    exact ⟨_, rfl⟩

theorem mem_parsedRuns {tryParse : Text → Option Guid} {runs : List RunRecord} {p : Guid × RunRecord} :
    p ∈ parsedRuns tryParse runs ↔ p.2 ∈ runs ∧ tryParse p.2.id = some p.1 := by
  obtain ⟨id, r⟩ := p
  simp only [parsedRuns, List.mem_filterMap, Option.map_eq_some_iff, Prod.mk.injEq]
  constructor
  · rintro ⟨x, hx, _, hid, rfl, rfl⟩
    exact ⟨hx, hid⟩
  · rintro ⟨hr, hid⟩
    exact ⟨r, hr, id, hid, rfl, rfl⟩

/-- Such a batch does not throw. -/
theorem upsertAll_converting {tryParse : Text → Option Guid} {db : IngestDb} {runs : List RunRecord}
    (h : AllConvert tryParse db runs) (projectId : Guid) (now : DateTime) :
    ∃ m, upsertAll (mergeRun projectId now) db.runs (parsedRuns tryParse runs) = .ok m := by
  refine upsertAll_total fun before p after hsplit row hrow => ?_
  -- The parsed records before `p` are those of the records before `p`'s.
  obtain ⟨pre, rest, rfl, rfl, hrest⟩ := List.filterMap_eq_append_iff.1 hsplit
  obtain ⟨skipped, r, post, rfl, hskipped, hp, -⟩ := List.filterMap_eq_cons_iff.1 hrest
  obtain ⟨id, hid, rfl⟩ := Option.map_eq_some_iff.1 hp
  have hconverts := h (pre ++ skipped) r post (List.append_assoc _ _ _).symm id hid
  refine mergeRun_total { hconverts with createdAt := hconverts.createdAt.imp_left fun hstored hnone => ?_ }
  obtain ⟨hnew, hfirst⟩ := hrow hnone
  rcases hstored with hstored | ⟨q, hq, hqid⟩
  · rw [hnew] at hstored
    cases hstored
  · rcases List.mem_append.1 hq with hq | hq
    · exact hfirst (id, q) (List.mem_filterMap.2 ⟨q, hq, by rw [hqid]; rfl⟩) rfl
    · have hnone := hskipped q hq
      rw [hqid] at hnone
      cases hnone

section Laws
variable {chars : CharTable} {tryParse : Text → Option Guid} {header : Option Text}

/-- A second call finds the keys where the first one found them. -/
theorem resolveAsync_afterSendRuns {db : IngestDb} {apiKey : ApiKey} (hkey : resolveAsync chars db.tables header = .ok apiKey)
    {runs : List RunRecord} (hne : ∀ r ∈ runs, tryParse r.id ≠ some 0) (env : IngestAmbient) :
    resolveAsync chars (afterSendRuns chars tryParse header env db runs).tables header = .ok apiKey :=
  (resolveAsync_congr (congrArg IngestTables.apiKeys (afterSendRuns_spec hkey hne env).1)).trans hkey

/-- Two calls in a row are two batches in a row. -/
theorem afterSendRuns_twice {db : IngestDb} {apiKey : ApiKey} (hkey : resolveAsync chars db.tables header = .ok apiKey)
    {as bs : List RunRecord} (has : ∀ r ∈ as, tryParse r.id ≠ some 0) (hbs : ∀ r ∈ bs, tryParse r.id ≠ some 0)
    {env env' : IngestAmbient} {now : DateTime} (hnow : env.clock 0 = now) (hnow' : env'.clock 0 = now) :
    { (afterSendRuns chars tryParse header env' (afterSendRuns chars tryParse header env db as) bs).tables with
        jobRuns := [] } = { db.tables with jobRuns := [] } ∧
      (afterSendRuns chars tryParse header env' (afterSendRuns chars tryParse header env db as) bs).runs =
        commitAll (mergeRun apiKey.projectId now) (commitAll (mergeRun apiKey.projectId now) db.runs (parsedRuns tryParse as))
          (parsedRuns tryParse bs) := by
  obtain ⟨ht, hr⟩ := afterSendRuns_spec hkey has env
  obtain ⟨ht', hr'⟩ := afterSendRuns_spec (resolveAsync_afterSendRuns hkey has env) hbs env'
  refine ⟨ht'.trans ht, ?_⟩
  rw [hr', hr, hnow, hnow']

end Laws

/-- A failed run of `mail` with this id, started at `startedAt`. -/
def mailRun (id : String) (startedAt : Option Timestamp) : RunRecord :=
  ⟨id.toList, "mail".toList, "n1".toList, none, startedAt, none, "Failed".toList, "Cron".toList, [], []⟩

def runSix : RunRecord := mailRun "00000000-0000-0000-0000-000000000006" none

def runWithoutId : RunRecord := mailRun "00000000-0000-0000-0000-000000000000" none

/-- A call in which EF Core draws the key 78. -/
def tenantEnv' : IngestAmbient := ⟨fun _ => 9, fun _ => 78, fun _ => by decide⟩

end DuckRun.Dashboard
