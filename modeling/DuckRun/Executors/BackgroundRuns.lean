import DuckRun.Executors.Executions
import DuckRun.Lib.Counting
import DuckRun.Lib.Machine
/-!
# Runs in the background

A node starts runs in background tasks, one `ContinueRunAsync` each. Its effects
happen one at a time, and anything may happen between two of them: the body goes
on by itself, its timeout elapses, the host stops, somebody cancels the run.
`RequestCancel` is two steps, `TryGetValue` and `Cancel`.

The effects are those of the executor's model: a run in execution has a list of
them to do, which ends where the body is invoked and goes on, computed again,
when `ContinueRunAsync` has what the body returned.
-/

namespace DuckRun.Executors

open DuckRun.Lib DuckRun.Runtime DuckRun.Runtime.JobExecutor

/-! ## The body -/

/-- The return type of a job method. -/
inductive Awaitable where
  | nothing
  | value
  | task
  | taskOf
  | valueTask
  | valueTaskOf
  deriving DecidableEq, Repr

/-- Something is left to complete when the method has returned. -/
def Awaitable.pends : Awaitable → Bool
  | .nothing | .value => false
  | .task | .taskOf | .valueTask | .valueTaskOf => true

/-- The tests `result is Task` and `result is ValueTask`. A `Task<T>` is a
`Task`; a boxed `ValueTask<T>` is neither. -/
def Awaitable.invoked (ending : Except Exn Unit) : Awaitable → Invoked
  | .nothing | .value | .valueTaskOf => .value
  | .task | .taskOf => .task ending
  | .valueTask => .valueTask ending

def Awaitable.awaited : Awaitable → Bool
  | .task | .taskOf | .valueTask => true
  | .nothing | .value | .valueTaskOf => false

/-- What signalled a run's token: host stop or `RequestCancel`, or its timeout. -/
inductive Cause where
  | request
  | timeout
  deriving DecidableEq, Repr

/-- A body that is over keeps what had signalled the token by then. -/
inductive Body where
  | idle
  | running
  /-- The method has returned and its awaitable is not complete. -/
  | pending
  /-- An exception left `Method.Invoke`. -/
  | threw (signal : Option Cause) (ex : Exn)
  | completed (signal : Option Cause) (ending : Except Exn Unit)

/-! ## One run -/

inductive RunPhase where
  /-- The background task has not started. -/
  | queued
  | executing (todo : List Effect)
  /-- In `Method.Invoke`, or in the `await` of what it returned. -/
  | inBody
  /-- `ContinueRunAsync` is over, and its token sources are disposed of. -/
  | ended
  /-- The caller has released the slot. -/
  | released
  deriving DecidableEq, Repr

structure BackgroundRun where
  job : JobDescriptor
  returns : Awaitable
  outcomes : Outcomes
  /-- The run as it was created. -/
  created : JobRun
  run : JobRun
  phase : RunPhase
  body : Body
  /-- What signalled the run's token first. -/
  signal : Option Cause
  /-- `timeoutCts.IsCancellationRequested`. -/
  elapsed : Bool
  /-- The same, when the body's outcome was classified. -/
  timedOut : Bool
  /-- `TriggerAsync` has returned the id. -/
  idReturned : Bool
  /-- Since then and before `FinishedAt`, `CancelAsync` was called. -/
  asked : Bool
  trace : List Effect

inductive RunAct where
  | begin_
  | effect
  | throws (ex : Exn)
  | returns
  | completes (ending : Except Exn Unit)
  | resume
  | elapse
  | stopSignals
  | idReturned
  | ends
  | release

namespace BackgroundRun

def new (job : JobDescriptor) (returns : Awaitable) (outcomes : Outcomes) (created : JobRun) : BackgroundRun :=
  ⟨job, returns, outcomes, created, created, .queued, .idle, none, false, false, false, false, []⟩

/-- What `ContinueRunAsync` goes on with; none while it waits. -/
def invoked (r : BackgroundRun) : Option (Except Exn Invoked) :=
  match r.body with
  | .idle | .running => none
  | .pending => if r.returns.awaited then none else some (.ok .value)
  | .threw _ ex => some (.error ex)
  | .completed _ ending => some (.ok (r.returns.invoked ending))

/-- What the execution meets, as far as it has come. -/
def actual (r : BackgroundRun) : Outcomes := { r.outcomes with invoke := r.invoked.getD (.ok .value), timedOut := r.timedOut }

/-- `ContinueRunAsync` is over, normally or not. -/
def isOver (r : BackgroundRun) : Prop := r.phase = .ended ∨ r.phase = .released

/-- The method has thrown, or what it returned is complete. -/
def bodyOver (r : BackgroundRun) : Prop :=
  match r.body with
  | .threw _ _ | .completed _ _ => True
  | .idle | .running | .pending => False

/-- What had signalled the token when the body completed; if it is still going on, what has so far. -/
def signalByEnd (r : BackgroundRun) : Option Cause :=
  match r.body with
  | .threw signal _ | .completed signal _ => signal
  | .idle | .running | .pending => r.signal

/-- The token source is live: created, and not disposed of. -/
def hasToken (r : BackgroundRun) : Prop :=
  .register ∈ r.trace ∧ r.phase ≠ .ended ∧ r.phase ≠ .released

instance (r : BackgroundRun) : Decidable r.hasToken := instDecidableAnd

def signalled (r : BackgroundRun) (cause : Cause) : BackgroundRun := { r with signal := r.signal.or (some cause) }

/-- The next effect happens. A token linked to one that is signalled already is signalled. -/
def perform (r : BackgroundRun) (stopping : Bool) (e : Effect) (todo : List Effect) : BackgroundRun :=
  { r with
    run := match e with
      | .assign run => run
      | _ => r.run
    phase := if e = .invoked then .inBody else .executing todo
    body := if e = .invoked then .running else r.body
    signal := if e = .register ∧ stopping = true then some .request else r.signal
    trace := r.trace ++ [e] }

def act (p : Package) (stopping : Bool) (r : BackgroundRun) : RunAct → Option BackgroundRun
  | .begin_ =>
    if r.phase = .queued then some { r with phase := .executing (p.execute r.actual r.job r.created).2 } else none
  | .effect =>
    match r.phase with
    | .executing (e :: todo) => some (r.perform stopping e todo)
    | _ => none
  | .throws ex =>
    match r.body with
    | .running => some { r with body := .threw r.signal ex }
    | _ => none
  | .returns =>
    match r.body with
    | .running => some { r with body := if r.returns.pends then .pending else .completed r.signal (.ok ()) }
    | _ => none
  | .completes ending =>
    match r.body with
    | .pending => some { r with body := .completed r.signal ending }
    | _ => none
  | .resume =>
    if r.phase = .inBody ∧ r.invoked.isSome then
      let now : BackgroundRun := { r with timedOut := r.elapsed }
      some { now with phase := .executing ((p.execute now.actual r.job r.created).2.dropWhile (· ≠ .invoked)).tail }
    else none
  | .elapse =>
    if r.job.timeout.isSome ∧ r.hasToken ∧ r.elapsed = false then some { r.signalled .timeout with elapsed := true } else none
  | .stopSignals => if stopping = true ∧ r.hasToken then some (r.signalled .request) else none
  | .idReturned => if r.idReturned = false then some { r with idReturned := true } else none
  | .ends => if r.phase = .executing [] then some { r with phase := .ended } else none
  | .release => if r.phase = .ended then some { r with phase := .released } else none

/-- The effect that `effect` does. -/
def next (r : BackgroundRun) : Option Effect :=
  match r.phase with
  | .executing (e :: _) => some e
  | _ => none

/-- `CancelAsync` is called. -/
def ask (r : BackgroundRun) : BackgroundRun := { r with asked := r.asked || (r.idReturned && r.run.finishedAt.isNone) }

/-- `cts.Cancel()`; a disposed source throws, which is caught. -/
def requestCancel (r : BackgroundRun) : BackgroundRun := if r.hasToken then r.signalled .request else r

end BackgroundRun

/-! ## The node -/

/-- The runs are numbered in the order they came; the number is the run's id. -/
structure BackgroundNode where
  stopping : Bool
  /-- The keys of `_live`. -/
  live : List Nat
  /-- The `RequestCancel` calls that have a token source and have not cancelled it yet. -/
  cancels : List Nat
  runs : List BackgroundRun

inductive BackgroundEvent where
  | arrive (job : JobDescriptor) (returns : Awaitable) (outcomes : Outcomes) (createdAt : Instant) (triggerSource : String)
  | stop
  /-- `CancelAsync`, up to `TryGetValue`. -/
  | lookup (id : Nat)
  | cancel (id : Nat)
  | act (id : Nat) (a : RunAct)

namespace BackgroundNode

def start : BackgroundNode := ⟨false, [], [], []⟩

/-- What an act leaves in `_live`. -/
def liveAfter (s : BackgroundNode) (id : Nat) (r : BackgroundRun) : RunAct → List Nat
  | .effect => Framework.JobExecutor.live id s.live r.next.toList
  | _ => s.live

def step (p : Package) (s : BackgroundNode) : BackgroundEvent → Option BackgroundNode
  | .arrive job returns outcomes createdAt triggerSource =>
    some { s with
      runs := s.runs ++ [.new job returns outcomes (createRun s.runs.length createdAt job triggerSource)] }
  | .stop => some { s with stopping := true }
  | .lookup id =>
    some { s with
      cancels := if id ∈ s.live then id :: s.cancels else s.cancels
      runs := s.runs.modify id BackgroundRun.ask }
  | .cancel id =>
    if id ∈ s.cancels then
      some { s with cancels := s.cancels.erase id, runs := s.runs.modify id BackgroundRun.requestCancel }
    else none
  | .act id a =>
    match s.runs[id]? with
    | some r => (r.act p s.stopping a).map fun r' => { s with live := s.liveAfter id r a, runs := s.runs.set id r' }
    | none => none

end BackgroundNode

end DuckRun.Executors
