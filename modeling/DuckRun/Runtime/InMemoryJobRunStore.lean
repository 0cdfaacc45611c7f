import DuckRun.Runtime.Jobs
import DuckRun.Lib.Machine
import DuckRun.Lib.Recent
import DuckRun.Lib.Rows
/-!
# The run history in memory

`InMemoryJobRunStore` keeps the runs by id, and for every job the ids of its
newest runs. `AddAsync` writes both tables and `UpdateAsync` only the first, so
the two stay in step as long as no run is updated that its job's list has lost.
What a reader is told about a job is right either way: it goes by the list.
-/

namespace DuckRun.Runtime

open DuckRun.Lib

/-- `_byId` and `_byJob`, whose lists have the newest run in front. Job names
are compared ignoring case: `fold` gives names that differ only in case one key. -/
structure InMemoryJobRunStore where
  byId : Nat → Option JobRun
  byJob : String → Option (List Nat)

namespace InMemoryJobRunStore

def new : InMemoryJobRunStore := ⟨fun _ => none, fun _ => none⟩

section Store
variable (fold : String → String) (maxPerJob : Nat) (s : InMemoryJobRunStore)

/-- The list of a job, by its key. -/
def list (key : String) : List Nat := (s.byJob key).getD []

def addAsync (run : JobRun) : InMemoryJobRunStore where
  byId := removeAll (Function.update s.byId run.id (some run)) (pushedOut maxPerJob run.id (s.list (fold run.jobName)))
  byJob := Function.update s.byJob (fold run.jobName) (some (push maxPerJob run.id (s.list (fold run.jobName))))

def updateAsync (run : JobRun) : InMemoryJobRunStore := { s with byId := Function.update s.byId run.id (some run) }

def getAsync (runId : Nat) : Option JobRun := s.byId runId

def getRecentForJobAsync (jobName : String) (take : Nat) : List JobRun :=
  match s.byJob (fold jobName) with
  | none => []
  | some list => (list.take take).filterMap s.byId

def countInFlightAsync (jobName : String) : Nat :=
  match s.byJob (fold jobName) with
  | none => 0
  | some list => list.countP fun id => (s.byId id).any fun run => run.state = .running

end Store

end InMemoryJobRunStore

/-! ## Calls -/

inductive StoreCall where
  | add (run : JobRun)
  | update (run : JobRun)
  deriving DecidableEq, Repr

def StoreCall.run : StoreCall → JobRun
  | .add run | .update run => run

/-- The runs that were added, from the newest. -/
def added (calls : List StoreCall) : List JobRun :=
  calls.filterMap fun
    | .add run => some run
    | .update _ => none

/-- The runs that were added under a key, from the newest. -/
def addedUnder (fold : String → String) (key : String) (calls : List StoreCall) : List JobRun :=
  (added calls).filter fun run => fold run.jobName = key

/-- What was written for a run last. -/
def latest (calls : List StoreCall) (id : Nat) : Option JobRun := (calls.find? fun c => c.run.id = id).map StoreCall.run

/-- A store and the calls it has had, from the newest. -/
structure RunHistory where
  store : InMemoryJobRunStore
  calls : List StoreCall

def RunHistory.empty : RunHistory := ⟨.new, []⟩

section Machine
variable (fold : String → String) (maxPerJob : Nat)

/-- Ids are fresh, and an update is of a run that was added (its id and its job
name are set once, when it is created). -/
def RunHistory.step (h : RunHistory) : StoreCall → Option RunHistory
  | .add run =>
    if run.id ∉ (added h.calls).map JobRun.id then some ⟨h.store.addAsync fold maxPerJob run, .add run :: h.calls⟩ else none
  | .update run =>
    if ∃ r ∈ added h.calls, r.id = run.id ∧ r.jobName = run.jobName then
      some ⟨h.store.updateAsync run, .update run :: h.calls⟩
    else none

end Machine

end DuckRun.Runtime
