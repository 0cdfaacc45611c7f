import Mathlib.Data.List.Basic
/-!
# Jobs and runs

The records the runtime works with: a job as assembly discovery describes it,
and one run of it.
-/

namespace DuckRun.Runtime

/-- A UTC instant, in ticks of 100 ns. -/
abbrev Instant := Int

/-- A `TimeSpan`, in ticks of 100 ns. -/
abbrev TimeSpan := Int

def TimeSpan.fromSeconds (n : Int) : TimeSpan := n * 10000000

def TimeSpan.totalMilliseconds (t : TimeSpan) : Int := t / 10000

def intMaxValue : Int := 2147483647

inductive JobRunState where
  | pending
  | running
  | succeeded
  | failed
  | cancelled
  | timedOut
  deriving DecidableEq, Repr

/-- The states a run ends in. -/
def JobRunState.terminal : JobRunState → Bool
  | .pending | .running => false
  | _ => true

structure JobRun where
  id : Nat
  jobName : String
  createdAt : Instant
  startedAt : Option Instant
  finishedAt : Option Instant
  state : JobRunState
  triggerSource : String
  errorMessage : Option String
  errorStackTrace : Option String
  deriving DecidableEq, Repr

/-- One parameter of a job method. -/
structure ParameterInfo where
  name : String
  parameterType : String
  isCancellationToken : Bool
  isConsole : Bool
  hasDefaultValue : Bool
  deriving DecidableEq, Repr

structure MethodInfo where
  name : String
  isStatic : Bool
  parameters : List ParameterInfo
  deriving DecidableEq, Repr

structure JobDescriptor where
  name : String
  cron : String
  declaringType : String
  method : MethodInfo
  maxConcurrency : Int
  timeout : Option TimeSpan
  allowManualTrigger : Bool
  enabled : Bool
  deriving DecidableEq, Repr

/-- `char.IsWhiteSpace`. -/
def isWhiteSpace (ch : Char) : Bool :=
  (9 ≤ ch.toNat && ch.toNat ≤ 13) || (0x2000 ≤ ch.toNat && ch.toNat ≤ 0x200A) ||
    [0x20, 0x85, 0xA0, 0x1680, 0x2028, 0x2029, 0x202F, 0x205F, 0x3000].contains ch.toNat

/-- `string.IsNullOrWhiteSpace`. -/
def isNullOrWhiteSpace (s : List Char) : Bool := s.all isWhiteSpace

/-- `[DuckRunJob(...)]` on a method. -/
structure DuckRunJobAttribute where
  name : String
  cron : String
  maxConcurrency : Int
  timeoutSeconds : Int
  allowManualTrigger : Bool
  enabled : Bool

/-- The descriptor `JobScanner.Build` adds for an attribute on a method. -/
def describe (attr : DuckRunJobAttribute) (type : String) (method : MethodInfo) : JobDescriptor where
  name := attr.name
  cron := attr.cron
  declaringType := type
  method := method
  maxConcurrency := if attr.maxConcurrency ≤ 0 then intMaxValue else attr.maxConcurrency
  timeout := if attr.timeoutSeconds > 0 then some (TimeSpan.fromSeconds attr.timeoutSeconds) else none
  allowManualTrigger := attr.allowManualTrigger
  enabled := attr.enabled

end DuckRun.Runtime
