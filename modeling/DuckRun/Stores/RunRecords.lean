import DuckRun.Persistence.JobRunStore
/-!
# Runs and their records

`EfCoreJobRunStore` and `Ef6JobRunStore` have the same mappings between a run,
whose times carry an offset, and a `JobRunRecord`, whose times have none and
whose state is a name. There and back keeps every field, the times as instants.
-/

namespace DuckRun.Stores

open DuckRun.Runtime (Instant TimeSpan JobRunState)
open DuckRun.Persistence (stateName)

/-! ## Times -/

/-- An instant, and the offset of the clock that showed it. -/
structure DateTimeOffset where
  instant : Instant
  offset : TimeSpan
  deriving DecidableEq, Repr

inductive DateTimeKind where
  | unspecified
  | utc
  | localTime
  deriving DecidableEq, Repr

structure DateTime where
  ticks : Int
  kind : DateTimeKind
  deriving DecidableEq, Repr

def DateTimeOffset.utcDateTime (t : DateTimeOffset) : DateTime := ⟨t.instant, .utc⟩

def DateTime.specifyKind (dt : DateTime) (kind : DateTimeKind) : DateTime := { dt with kind := kind }

/-- `new DateTimeOffset(dt)`: a time that is not UTC is one of the machine's `zone`. -/
def DateTimeOffset.ofDateTime (zone : Int → TimeSpan) (dt : DateTime) : DateTimeOffset :=
  match dt.kind with
  | .utc => ⟨dt.ticks, 0⟩
  | .unspecified | .localTime => ⟨dt.ticks - zone dt.ticks, zone dt.ticks⟩

def toOffset (zone : Int → TimeSpan) (dt : DateTime) : DateTimeOffset := .ofDateTime zone (dt.specifyKind .utc)

@[simp] theorem toOffset_instant (zone : Int → TimeSpan) (dt : DateTime) : (toOffset zone dt).instant = dt.ticks := rfl

/-! ## Mappings -/

/-- A `JobRun` with its times as they were given. -/
structure JobRun where
  id : Nat
  jobName : String
  createdAt : DateTimeOffset
  startedAt : Option DateTimeOffset
  finishedAt : Option DateTimeOffset
  state : JobRunState
  triggerSource : String
  errorMessage : Option String
  errorStackTrace : Option String
  deriving DecidableEq, Repr

/-- The run with its times as instants. -/
def JobRun.instants (run : JobRun) : Runtime.JobRun where
  id := run.id
  jobName := run.jobName
  createdAt := run.createdAt.instant
  startedAt := run.startedAt.map (·.instant)
  finishedAt := run.finishedAt.map (·.instant)
  state := run.state
  triggerSource := run.triggerSource
  errorMessage := run.errorMessage
  errorStackTrace := run.errorStackTrace

/-- The entity; its columns are a `Persistence.JobRunRecord`. -/
structure JobRunRecord where
  id : Nat
  jobName : String
  createdAt : DateTime
  startedAt : Option DateTime
  finishedAt : Option DateTime
  state : String
  triggerSource : String
  errorMessage : Option String
  errorStackTrace : Option String
  deriving DecidableEq, Repr

/-- A row of the table. -/
abbrev Row := Persistence.JobRunRecord

/-- The values that are sent for an entity. -/
def JobRunRecord.columns (rec : JobRunRecord) : Row where
  id := rec.id
  jobName := rec.jobName
  createdAt := rec.createdAt.ticks
  startedAt := rec.startedAt.map (·.ticks)
  finishedAt := rec.finishedAt.map (·.ticks)
  state := rec.state
  triggerSource := rec.triggerSource
  errorMessage := rec.errorMessage
  errorStackTrace := rec.errorStackTrace

/-- The entity of a row. What kind its times have is up to the provider. -/
def materialize (kind : DateTimeKind) (row : Row) : JobRunRecord where
  id := row.id
  jobName := row.jobName
  createdAt := ⟨row.createdAt, kind⟩
  startedAt := row.startedAt.map (⟨·, kind⟩)
  finishedAt := row.finishedAt.map (⟨·, kind⟩)
  state := row.state
  triggerSource := row.triggerSource
  errorMessage := row.errorMessage
  errorStackTrace := row.errorStackTrace

def toRecord (run : JobRun) : JobRunRecord where
  id := run.id
  jobName := run.jobName
  createdAt := run.createdAt.utcDateTime
  startedAt := run.startedAt.map DateTimeOffset.utcDateTime
  finishedAt := run.finishedAt.map DateTimeOffset.utcDateTime
  state := stateName run.state
  triggerSource := run.triggerSource
  errorMessage := run.errorMessage
  errorStackTrace := run.errorStackTrace

def applyUpdate (rec : JobRunRecord) (run : JobRun) : JobRunRecord :=
  { rec with
    jobName := run.jobName
    createdAt := run.createdAt.utcDateTime
    startedAt := run.startedAt.map DateTimeOffset.utcDateTime
    finishedAt := run.finishedAt.map DateTimeOffset.utcDateTime
    state := stateName run.state
    triggerSource := run.triggerSource
    errorMessage := run.errorMessage
    errorStackTrace := run.errorStackTrace }

def jobRunStates : List JobRunState := [.pending, .running, .succeeded, .failed, .cancelled, .timedOut]

/-- `Enum.TryParse<JobRunState>` of a member's name. (It also reads numbers and
lists of names, which no state is written as.) -/
def tryParse (text : String) : Option JobRunState := jobRunStates.find? fun st => stateName st = text

def fromRecord (zone : Int → TimeSpan) (rec : JobRunRecord) : JobRun where
  id := rec.id
  jobName := rec.jobName
  createdAt := toOffset zone rec.createdAt
  startedAt := rec.startedAt.map (toOffset zone)
  finishedAt := rec.finishedAt.map (toOffset zone)
  state := (tryParse rec.state).getD .pending
  triggerSource := rec.triggerSource
  errorMessage := rec.errorMessage
  errorStackTrace := rec.errorStackTrace

/-! ## There and back -/

@[simp] theorem tryParse_stateName (st : JobRunState) : tryParse (stateName st) = some st := by
  cases st <;> decide

/-- The names of the states differ. -/
theorem stateName_inj {st st' : JobRunState} : stateName st = stateName st' ↔ st = st' := by
  refine ⟨fun h => ?_, congrArg stateName⟩
  rw [← Option.some_inj, ← tryParse_stateName st, h, tryParse_stateName]

@[simp] theorem columns_materialize (kind : DateTimeKind) (row : Row) : (materialize kind row).columns = row := by
  cases row
  simp [materialize, JobRunRecord.columns, Function.comp_def]

theorem columns_toRecord (run : JobRun) : (toRecord run).columns = Persistence.toRecord run.instants := by
  simp [toRecord, JobRunRecord.columns, Persistence.toRecord, JobRun.instants, Function.comp_def, DateTimeOffset.utcDateTime]

/-- `ApplyUpdate` leaves nothing of the record but its id. -/
theorem applyUpdate_eq_toRecord {rec : JobRunRecord} {run : JobRun} (h : rec.id = run.id) : applyUpdate rec run = toRecord run := by
  simp [applyUpdate, toRecord, h]

/-- The run of a row. -/
def runOf (row : Row) : Runtime.JobRun where
  id := row.id
  jobName := row.jobName
  createdAt := row.createdAt
  startedAt := row.startedAt
  finishedAt := row.finishedAt
  state := (tryParse row.state).getD .pending
  triggerSource := row.triggerSource
  errorMessage := row.errorMessage
  errorStackTrace := row.errorStackTrace

/-- Neither the kind of a time nor the machine's zone is seen. -/
theorem fromRecord_instants (zone : Int → TimeSpan) (kind : DateTimeKind) (row : Row) :
    (fromRecord zone (materialize kind row)).instants = runOf row := by
  simp [fromRecord, materialize, JobRun.instants, runOf, Function.comp_def]

theorem runOf_toRecord (run : Runtime.JobRun) : runOf (Persistence.toRecord run) = run := by
  simp [runOf, Persistence.toRecord]

end DuckRun.Stores
