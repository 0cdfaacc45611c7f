import DuckRun.Runtime.JobExecutor
import DuckRun.Lib.Counting
import DuckRun.Lib.Machine
/-!
# Slots and the operations that hold them

One node on which any number of cron fires and manual triggers run at the same
time. Each is a thread that takes the atomic steps of `JobSlotGate`, of the
scheduler's fire or `TriggerAsync`, and of the executor, in the order of the
source; which thread takes the next step is open, as is everything a thread
meets from outside (the coordinator's answer, a store that throws, a token
cancelled before a queued body starts, the outcomes of the execution).
-/

namespace DuckRun.Runtime

open DuckRun.Lib

/-- `ConcurrencyTracker`. -/
structure ConcurrencyTracker where
  max : Int
  current : Int
  deriving DecidableEq, Repr

def ConcurrencyTracker.new (max : Int) : ConcurrencyTracker := ⟨if max ≤ 0 then intMaxValue else max, 0⟩

def ConcurrencyTracker.release (t : ConcurrencyTracker) : ConcurrencyTracker := { t with current := t.current - 1 }

inductive Source where
  | cron
  | manual
  deriving DecidableEq, Repr

def Source.trigger : Source → String
  | .cron => "Cron"
  | .manual => "Manual"

/-- How an operation came to its end. -/
inductive Ending where
  /-- No slot: the tracker or the coordinator refused, or the coordinator threw. -/
  | refused
  | released
  /-- `TriggerAsync` left by the exception of `CreateAndStoreRunAsync`. -/
  | createThrew
  /-- The token given to `Task.Run` was cancelled before the body started. -/
  | neverStarted
  deriving DecidableEq, Repr

inductive Phase where
  /-- About to read the tracker. -/
  | gate
  /-- Read `seen`, about to compare and swap. -/
  | swap (seen : Int)
  | coordinator
  | rollback
  /-- The `JobSlot` is returned. -/
  | holding
  /-- Handed to `Task.Run`. -/
  | queued
  /-- The cron body, before `CreateAndStoreRunAsync`. -/
  | creating
  /-- Before `ContinueRunAsync`. -/
  | ready
  | executing (rest : List Effect)
  /-- The `finally` around the body: before the distributed half is released. -/
  | disposing
  /-- Before the local half is released. -/
  | releasing
  | over (ending : Ending)
  deriving DecidableEq, Repr

/-- Where the body handed to `Task.Run` starts: the cron body creates its run first. -/
def Source.bodyStart : Source → Phase
  | .cron => .creating
  | .manual => .ready

/-- The state of a run as the process sees it, and as it was last stored. -/
structure RunView where
  object : JobRunState
  stored : JobRunState
  deriving DecidableEq, Repr

def RunView.perform (v : RunView) : Effect → RunView
  | .assign run => { v with object := run.state }
  | .store run => { v with stored := run.state }
  | _ => v

def RunView.running (v : RunView) : Bool := v.object = .running || v.stored = .running

structure Thread where
  job : JobDescriptor
  source : Source
  phase : Phase
  /-- Counted by the job's tracker. -/
  holdsLocal : Bool
  /-- Has a slot from the coordinator. -/
  holdsRemote : Bool
  run : Option RunView
  deriving DecidableEq, Repr

def Thread.new (job : JobDescriptor) (source : Source) : Thread := ⟨job, source, .gate, false, false, none⟩

def Thread.isRunning (t : Thread) : Bool := t.run.any RunView.running

/-- What `ContinueRunAsync` will do with the thread's run. -/
def Thread.program (t : Thread) (id : Nat) (createdAt : Instant) (o : Outcomes) : List Effect :=
  (JobExecutor.execute o t.job (JobExecutor.createRun id createdAt t.job t.source.trigger)).2

inductive Answer where
  | granted
  | refused
  | threw
  deriving DecidableEq, Repr

/-- One step of a thread, with what it meets. -/
inductive Act where
  | read
  | swap
  | coordinator (answer : Answer)
  | rollback
  | create (ok : Bool)
  | enqueue
  | start
  | cancel
  | begin_ (id : Nat) (createdAt : Instant) (o : Outcomes)
  | effect
  | ended
  | dispose
  | release

/-- Only jobs with a finite cap ask the coordinator. -/
def JobDescriptor.finite (job : JobDescriptor) : Bool := job.maxConcurrency < intMaxValue

/-- A step of a thread on its job's tracker. -/
def Thread.step (tr : ConcurrencyTracker) (t : Thread) : Act → Option (ConcurrencyTracker × Thread)
  | .read =>
    match t.phase with
    | .gate =>
      if tr.current ≥ tr.max then some (tr, { t with phase := .over .refused })
      else some (tr, { t with phase := .swap tr.current })
    | _ => none
  | .swap =>
    match t.phase with
    | .swap seen =>
      if tr.current = seen then
        some ({ tr with current := seen + 1 },
          { t with phase := if t.job.finite then .coordinator else .holding, holdsLocal := true })
      else some (tr, { t with phase := .gate })
    | _ => none
  | .coordinator answer =>
    match t.phase with
    | .coordinator =>
      match answer with
      | .granted => some (tr, { t with phase := .holding, holdsRemote := true })
      | .refused | .threw => some (tr, { t with phase := .rollback })
    | _ => none
  | .rollback =>
    match t.phase with
    | .rollback => some (tr.release, { t with phase := .over .refused, holdsLocal := false })
    | _ => none
  | .create ok =>
    match t.phase, t.source with
    | .holding, .manual =>
      if ok then some (tr, { t with phase := .queued, run := some ⟨.pending, .pending⟩ })
      else some (tr, { t with phase := .over .createThrew })
    | .creating, .cron =>
      if ok then some (tr, { t with phase := .ready, run := some ⟨.pending, .pending⟩ })
      else some (tr, { t with phase := .disposing })
    | _, _ => none
  | .enqueue =>
    match t.phase, t.source with
    | .holding, .cron => some (tr, { t with phase := .queued })
    | _, _ => none
  | .start =>
    match t.phase with
    | .queued => some (tr, { t with phase := t.source.bodyStart })
    | _ => none
  | .cancel =>
    match t.phase with
    | .queued => some (tr, { t with phase := .over .neverStarted })
    | _ => none
  | .begin_ id createdAt o =>
    match t.phase with
    | .ready =>
      some (tr, { t with phase := .executing (t.program id createdAt o) })
    | _ => none
  | .effect =>
    match t.phase with
    | .executing (e :: rest) => some (tr, { t with phase := .executing rest, run := t.run.map (·.perform e) })
    | _ => none
  | .ended =>
    match t.phase with
    | .executing [] => some (tr, { t with phase := .disposing })
    | _ => none
  | .dispose =>
    match t.phase with
    | .disposing => some (tr, { t with phase := .releasing, holdsRemote := false })
    | _ => none
  | .release =>
    match t.phase with
    | .releasing => some (tr.release, { t with phase := .over .released, holdsLocal := false })
    | _ => none

/-- `LocalConcurrencyTrackers` and the operations under way or over. Trackers
are kept by job name, ignoring case: `fold` gives names that differ only in
case one key. -/
structure Node where
  trackers : String → Option ConcurrencyTracker
  threads : List Thread

def Node.empty : Node := ⟨fun _ => none, []⟩

inductive NodeEvent where
  /-- The scheduler finds a job due. -/
  | fire (job : JobDescriptor)
  /-- `TriggerAsync(jobName)`. -/
  | trigger (jobName : String)
  | act (i : Nat) (a : Act)

section Machine
variable (fold : String → String) (registry : List JobDescriptor)

/-- `GetTracker`. -/
def Node.getTracker (n : Node) (job : JobDescriptor) : ConcurrencyTracker :=
  (n.trackers (fold job.name)).getD (ConcurrencyTracker.new job.maxConcurrency)

/-- `FindByName`. -/
def findByName (jobName : String) : Option JobDescriptor := registry.find? fun job => fold job.name = fold jobName

def Node.step (n : Node) : NodeEvent → Option Node
  | .fire job =>
    if job ∈ registry ∧ job.enabled = true then some { n with threads := n.threads ++ [.new job .cron] } else none
  | .trigger jobName =>
    match findByName fold registry jobName with
    | none => some n
    | some job => if job.allowManualTrigger then some { n with threads := n.threads ++ [.new job .manual] } else some n
  | .act i a => do
    let t ← n.threads[i]?
    let (tr, t') ← t.step (n.getTracker fold t.job) a
    return { trackers := Function.update n.trackers (fold t.job.name) (some tr), threads := n.threads.set i t' }

end Machine

end DuckRun.Runtime
