import DuckRun.Runtime.Jobs
import DuckRun.Lib.Throwing
/-!
# The job executor of DuckRun.Core

`ContinueRunAsync` as the source runs it: every assignment to the run, every
record it stores and every report, in order, with the exception that leaves it.
What it meets on the way (the services, the constructor, the body, the clock,
a store that throws) is an `Outcomes`.
-/

namespace DuckRun.Runtime

open DuckRun.Lib

/-- An exception: its `Message` and its `ToString()`. -/
inductive Exn where
  | operationCanceled (message text : String)
  | targetInvocation (message text : String) (inner : Option Exn)
  | other (message text : String)

def Exn.message : Exn → String
  | .operationCanceled m _ | .targetInvocation m _ _ | .other m _ => m

def Exn.text : Exn → String
  | .operationCanceled _ t | .targetInvocation _ t _ | .other _ t => t

def Exn.isCanceled : Exn → Bool
  | .operationCanceled _ _ => true
  | _ => false

/-- What `Method.Invoke` gives back. `value` is everything that is neither a
`Task` nor a `ValueTask`; the other two carry how awaiting them ends. -/
inductive Invoked where
  | value
  | task (ending : Except Exn Unit)
  | valueTask (ending : Except Exn Unit)

/-- What an execution meets. -/
structure Outcomes where
  /-- Getting the scope's `IDuckRunConsole` and casting it to `ScopedDuckRunConsole`. -/
  consoleThrows : Option Exn
  constructThrows : Option Exn
  /-- `sp.GetService` for parameter `i`: whether there is one. -/
  getService : Nat → Except Exn Bool
  invoke : Except Exn Invoked
  /-- `timeoutCts.IsCancellationRequested` when the body has failed. -/
  timedOut : Bool
  /-- Readings of `DateTimeOffset.UtcNow`. -/
  clock : Nat → Instant
  /-- Whether the `k`-th `UpdateAsync` throws. -/
  updateThrows : Nat → Option Exn

/-- What others can see of an execution. -/
inductive Effect where
  | setCurrent (console : Bool)
  | register
  | unregister
  | assign (run : JobRun)
  | invoked
  | store (run : JobRun)
  | storeThrows (run : JobRun)
  | report (run : JobRun)
  deriving DecidableEq, Repr

structure Execution where
  run : JobRun
  reads : Nat
  updates : Nat
  trace : List Effect

abbrev Exec := Throwing Exn Execution

namespace JobExecutor

open Throwing

def emit (e : Effect) : Exec Unit := modify fun s => { s with trace := s.trace ++ [e] }

/-- Assignments to properties of the run. -/
def assign (f : JobRun → JobRun) : Exec Unit :=
  modify fun s => { s with run := f s.run, trace := s.trace ++ [.assign (f s.run)] }

section Core
variable (o : Outcomes)

def utcNow : Exec Instant := do
  let s ← get
  modify fun s => { s with reads := s.reads + 1 }
  return o.clock s.reads

/-- `runs.UpdateAsync(run, CancellationToken.None)`. -/
def updateAsync : Exec Unit := do
  let s ← get
  modify fun s => { s with updates := s.updates + 1 }
  match o.updateThrows s.updates with
  | some ex =>
    emit (.storeThrows s.run)
    throw ex
  | none => emit (.store s.run)

def reportRun : Exec Unit := do
  let s ← get
  emit (.report s.run)

/-- `new CancellationTokenSource(t)` takes delays of up to 4294967294 ms. -/
def maxSupportedTimeout : Int := 4294967294

def acceptsTimeout (job : JobDescriptor) : Bool :=
  job.timeout.all fun t => t.totalMilliseconds ≤ maxSupportedTimeout

def createTimeoutSource (job : JobDescriptor) : Exec Unit :=
  if acceptsTimeout job then return () else throw (.other "delay" "System.ArgumentOutOfRangeException")

/-- One round of `BuildArguments`. -/
def buildArgument (job : JobDescriptor) (p : ParameterInfo) (i : Nat) : Except Exn Unit :=
  if p.isCancellationToken then .ok ()
  else
    match o.getService i with
    | .error ex => .error ex
    | .ok resolved =>
      if !resolved && !p.hasDefaultValue then
        let message := s!"Cannot resolve parameter '{p.name}' of type {p.parameterType} for " ++
          s!"{job.declaringType}.{job.method.name}. Either register the service in DI " ++
          "or give the parameter a default value."
        .error (.other message message)
      else .ok ()

def buildArguments (job : JobDescriptor) : Except Exn Unit :=
  job.method.parameters.zipIdx.forM fun (p, i) => buildArgument o job p i

def assignFailure (job : JobDescriptor) (ex : Exn) (run : JobRun) : JobRun :=
  if ex.isCanceled then
    { run with state := if job.timeout.isSome && o.timedOut then .timedOut else .cancelled }
  else { run with state := .failed, errorMessage := some ex.message, errorStackTrace := some ex.text }

/-- Invoking the method and awaiting what it returned. -/
def invoke : Except Exn Unit :=
  match o.invoke with
  | .error ex => .error ex
  | .ok .value => .ok ()
  | .ok (.task ending) | .ok (.valueTask ending) => ending

/-- The `try` around the body: how the run ends. -/
def runBody (job : JobDescriptor) : Exec Unit := do
  emit .invoked
  match invoke o with
  | .ok () => assign fun run => { run with state := .succeeded }
  | .error (.targetInvocation message text inner) =>
    assign (assignFailure o job (inner.getD (.targetInvocation message text inner)))
  | .error ex => assign (assignFailure o job ex)

/-- The outer `try`. -/
def tryBlock (job : JobDescriptor) : Exec Unit := do
  if !job.method.isStatic then
    if let some ex := o.constructThrows then
      let now ← utcNow o
      assign fun run =>
        { run with
          state := .failed
          errorMessage := some s!"Could not construct {job.declaringType}: {ex.message}"
          errorStackTrace := some ex.text
          startedAt := some now
          finishedAt := some now }
      updateAsync o
      reportRun
      return
  match buildArguments o job with
  | .error ex => throw ex
  | .ok () =>
    let now ← utcNow o
    assign fun run => { run with startedAt := some now, state := .running }
    updateAsync o
    reportRun
    runBody o job

/-- The outer `finally`. -/
def finallyBlock : Exec Unit := do
  let now ← utcNow o
  assign fun run => { run with finishedAt := some now }
  updateAsync o
  reportRun
  emit (.setCurrent false)
  emit .unregister

def continueRunAsync (job : JobDescriptor) : Exec Unit := do
  if let some ex := o.consoleThrows then
    throw ex
  emit (.setCurrent true)
  createTimeoutSource job
  emit .register
  finally_ (tryBlock o job) (finallyBlock o)

end Core

/-- The run `CreateAndStoreRunAsync` stores and reports. -/
def createRun (id : Nat) (createdAt : Instant) (job : JobDescriptor) (triggerSource : String) : JobRun where
  id := id
  jobName := job.name
  createdAt := createdAt
  startedAt := none
  finishedAt := none
  state := .pending
  triggerSource := triggerSource
  errorMessage := none
  errorStackTrace := none

/-- Everything an execution does with a run, and how it ends. -/
def execute (o : Outcomes) (job : JobDescriptor) (run : JobRun) : Except Exn Unit × List Effect :=
  let (result, s) := continueRunAsync o job ⟨run, 0, 0, []⟩
  (result, s.trace)

end JobExecutor

end DuckRun.Runtime
