import DuckRun.Runtime.Jobs
import DuckRun.Lib.Rows
import Mathlib.Logic.Function.Basic
/-!
# The table of runs

`EfCoreJobRunStore` and the boot replay of `SchemaBootstrap`, on one table that
any number of processes share. EF Core reads rows into tracked copies and later
writes, by primary key, the columns of a copy that were changed since.
-/

namespace DuckRun.Persistence

open DuckRun.Lib DuckRun.Runtime

/-- `JobRunState.ToString()`. -/
def stateName : JobRunState → String
  | .pending => "Pending"
  | .running => "Running"
  | .succeeded => "Succeeded"
  | .failed => "Failed"
  | .cancelled => "Cancelled"
  | .timedOut => "TimedOut"

structure JobRunRecord where
  id : Nat
  jobName : String
  createdAt : Instant
  startedAt : Option Instant
  finishedAt : Option Instant
  state : String
  triggerSource : String
  errorMessage : Option String
  errorStackTrace : Option String
  deriving DecidableEq, Repr

/-- `ToRecord`, and `ApplyUpdate` on a tracked record of the same run. -/
def toRecord (run : JobRun) : JobRunRecord where
  id := run.id
  jobName := run.jobName
  createdAt := run.createdAt
  startedAt := run.startedAt
  finishedAt := run.finishedAt
  state := stateName run.state
  triggerSource := run.triggerSource
  errorMessage := run.errorMessage
  errorStackTrace := run.errorStackTrace

/-- A column of the row after `SaveChanges`: written only if the tracked copy has a new value. -/
def written {β : Type} [DecidableEq β] (original current stored : β) : β :=
  if original = current then stored else current

def JobRunRecord.merge (original current row : JobRunRecord) : JobRunRecord :=
  { row with
    jobName := written original.jobName current.jobName row.jobName
    createdAt := written original.createdAt current.createdAt row.createdAt
    startedAt := written original.startedAt current.startedAt row.startedAt
    finishedAt := written original.finishedAt current.finishedAt row.finishedAt
    state := written original.state current.state row.state
    triggerSource := written original.triggerSource current.triggerSource row.triggerSource
    errorMessage := written original.errorMessage current.errorMessage row.errorMessage
    errorStackTrace := written original.errorStackTrace current.errorStackTrace row.errorStackTrace }

/-! ## The boot replay -/

/-- `Where(r => r.State == running || r.State == pending)`. -/
def isStuck (r : JobRunRecord) : Bool := r.state = stateName .running || r.state = stateName .pending

def interrupted : String := "Run was interrupted by a host restart and marked failed on boot."

/-- The body of the loop over the stuck rows. -/
def replay (now : Instant) (r : JobRunRecord) : JobRunRecord :=
  { r with
    state := stateName .failed
    errorMessage := some (r.errorMessage.getD interrupted)
    finishedAt := some (r.finishedAt.getD now) }

/-- `SaveChangesAsync` of the replay: every row that was read is written. -/
def saveReplay (now : Instant) (stuck rows : List JobRunRecord) : List JobRunRecord :=
  rows.map fun row => (stuck.find? fun r => r.id = row.id).elim row fun r => r.merge (replay now r) row

/-! ## Processes -/

inductive ProcessPhase where
  | booting
  /-- In `ReplayInterruptedRunsAsync`, with the rows it has read. -/
  | replaying (stuck : List JobRunRecord)
  | started
  | dead
  deriving DecidableEq, Repr

/-- An `UpdateAsync` between `FindAsync` and `SaveChangesAsync`. -/
structure Update where
  process : Nat
  loaded : Option JobRunRecord
  current : JobRunRecord
  deriving DecidableEq, Repr

structure Database where
  rows : List JobRunRecord
  updates : List Update
  processes : List ProcessPhase
  /-- The process that executes a run. -/
  executor : Nat → Option Nat
  /-- What the executing process last stored of a run. -/
  stored : Nat → Option JobRunRecord

/-- The table as earlier processes left it. -/
def Database.initial (rows : List JobRunRecord) : Database := ⟨rows, [], [], fun _ => none, fun _ => none⟩

def Database.alive (s : Database) (p : Nat) : Prop := ∃ phase, s.processes[p]? = some phase ∧ phase ≠ .dead

instance (s : Database) (p : Nat) : Decidable (s.alive p) :=
  match h : s.processes[p]? with
  | none => .isFalse fun ⟨_, hp, _⟩ => by rw [h] at hp; cases hp
  | some phase =>
    if hd : phase = .dead then .isFalse fun ⟨_, hp, hne⟩ => by rw [h] at hp; cases hp; exact hne hd
    else .isTrue ⟨phase, h, hd⟩

inductive DatabaseEvent where
  | boot
  /-- The replay of process `p` reads the stuck rows. -/
  | read (p : Nat)
  /-- It saves them. -/
  | commit (p : Nat) (now : Instant)
  /-- `AddAsync`. -/
  | add (p : Nat) (run : JobRun)
  /-- `UpdateAsync` reads the run's row. -/
  | load (p : Nat) (run : JobRun)
  | save (u : Update)
  | crash (p : Nat)
  deriving DecidableEq, Repr

/-- A process adds each of its runs once and updates one record of a run at a time. -/
def Database.step (s : Database) : DatabaseEvent → Option Database
  | .boot => some { s with processes := s.processes ++ [.booting] }
  | .read p =>
    match s.processes[p]? with
    | some .booting =>
      match s.rows.filter isStuck with
      | [] => some { s with processes := s.processes.set p .started }
      | r :: rs => some { s with processes := s.processes.set p (.replaying (r :: rs)) }
    | _ => none
  | .commit p now =>
    match s.processes[p]? with
    | some (.replaying stuck) =>
      some { s with rows := saveReplay now stuck s.rows, processes := s.processes.set p .started }
    | _ => none
  | .add p run =>
    if s.alive p ∧ run.id ∉ s.rows.map JobRunRecord.id ∧ s.executor run.id = none then
      some { s with
        rows := s.rows ++ [toRecord run]
        executor := Function.update s.executor run.id (some p)
        stored := Function.update s.stored run.id (some (toRecord run)) }
    else none
  | .load p run =>
    if s.alive p ∧ s.executor run.id = some p ∧ run.id ∉ s.updates.map (fun u => u.current.id) then
      some { s with updates := s.updates ++ [⟨p, s.rows.find? fun r => r.id = run.id, toRecord run⟩] }
    else none
  | .save u =>
    if u ∈ s.updates ∧ s.alive u.process then
      match u.loaded with
      | some original =>
        some { s with
          rows := updateKey JobRunRecord.id u.current.id (original.merge u.current) s.rows
          updates := s.updates.erase u
          stored := Function.update s.stored u.current.id (some u.current) }
      | none =>
        if u.current.id ∈ s.rows.map JobRunRecord.id then none
        else some { s with
          rows := s.rows ++ [u.current]
          updates := s.updates.erase u
          stored := Function.update s.stored u.current.id (some u.current) }
    else none
  | .crash p =>
    if s.alive p then some { s with processes := s.processes.set p .dead } else none

end DuckRun.Persistence
