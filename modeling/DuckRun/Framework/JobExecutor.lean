import DuckRun.Runtime.RunStates
/-!
# The job executor of DuckRun.Framework

There is no container: the job factory makes the target, and a parameter is a
token, the console or a default. The body, the `finally` block, the store and
the reporter are those of DuckRun.Core, so an execution meets the same
`Outcomes`, of which it never asks `consoleThrows` and `getService`.
-/

namespace DuckRun.Framework.JobExecutor

open DuckRun.Lib DuckRun.Lib.Throwing DuckRun.Runtime DuckRun.Runtime.JobExecutor

section Executor
variable (o : Outcomes)

/-- On net48, `new CancellationTokenSource(t)` takes delays of up to `int.MaxValue` ms. -/
def acceptsTimeout (job : JobDescriptor) : Bool :=
  job.timeout.all fun t => t.totalMilliseconds ≤ intMaxValue

def createTimeoutSource (job : JobDescriptor) : Exec Unit :=
  if acceptsTimeout job then return () else throw (.other "delay" "System.ArgumentOutOfRangeException")

/-- `FailEarly`, stamped with one reading of the clock. -/
def failEarly (now : Instant) (message stack : String) (run : JobRun) : JobRun :=
  { run with
    state := .failed
    errorMessage := some message
    errorStackTrace := some stack
    startedAt := some now
    finishedAt := some now }

/-- One round of `BuildArguments`. -/
def buildArgument (job : JobDescriptor) (p : ParameterInfo) : Except Exn Unit :=
  if p.isCancellationToken then .ok ()
  else if p.isConsole then .ok ()
  else if p.hasDefaultValue then .ok ()
  else
    let message := s!"DuckRun.Framework can't resolve method parameter '{p.name}' of type {p.parameterType} on " ++
      s!"{job.declaringType}.{job.method.name}. On net48 only CancellationToken and IDuckRunConsole " ++
      "are auto-injected. Use constructor injection on the job class via UseJobFactory(...) for other dependencies."
    .error (.other message message)

def buildArguments (job : JobDescriptor) : Except Exn Unit := job.method.parameters.forM (buildArgument job)

/-- A `catch` that fails the run early: stamp, store, report and return. -/
def stopEarly (message stack : String) : Exec Unit := do
  let now ← utcNow o
  assign (failEarly now message stack)
  updateAsync o
  reportRun

/-- The outer `try`. -/
def tryBlock (job : JobDescriptor) : Exec Unit := do
  if !job.method.isStatic then
    if let some ex := o.constructThrows then
      stopEarly o s!"Could not construct {job.declaringType}: {ex.message}" ex.text
      return
  match buildArguments job with
  | .error ex => stopEarly o ex.message ex.text
  | .ok () =>
    let now ← utcNow o
    assign fun run => { run with startedAt := some now, state := .running }
    updateAsync o
    reportRun
    runBody o job

def continueRunAsync (job : JobDescriptor) : Exec Unit := do
  emit (.setCurrent true)
  createTimeoutSource job
  emit .register
  finally_ (tryBlock o job) (finallyBlock o)

/-- `CreateAndStoreRunAsync`, where `AddAsync` does not throw. -/
def createAndStoreRunAsync : Exec Unit := do
  let s ← get
  emit (.store s.run)
  reportRun

/-- `ExecuteAsync` on a new run: how it ends and everything it does. -/
def executeAsync (job : JobDescriptor) (run : JobRun) : Except Exn Unit × List Effect :=
  let (result, s) := (do createAndStoreRunAsync; continueRunAsync o job : Exec Unit) ⟨run, 0, 0, []⟩
  (result, s.trace)

end Executor

/-! ## What an execution leaves -/

/-- The snapshots given to the store. -/
def stored (trace : List Effect) : List JobRun := trace.filterMap Effect.stored

/-- The snapshots given to the reporter. -/
def reported (trace : List Effect) : List JobRun :=
  trace.filterMap fun
    | .report run => some run
    | _ => none

/-- The keys of `_live` after an execution of run `id`. -/
def live (id : Nat) : List Nat → List Effect → List Nat
  | keys, [] => keys
  | keys, .register :: trace => live id (id :: keys) trace
  | keys, .unregister :: trace => live id (keys.filter (· ≠ id)) trace
  | keys, _ :: trace => live id keys trace

/-- The target is constructed and every parameter has an argument. -/
def Starts (o : Outcomes) (job : JobDescriptor) : Prop :=
  Constructs o job ∧ ∀ p ∈ job.method.parameters,
    p.isCancellationToken = true ∨ p.isConsole = true ∨ p.hasDefaultValue = true

/-- What the whole of an execution stores, reports and leaves behind. -/
structure LifeCycle (o : Outcomes) (job : JobDescriptor) (id : Nat) (trace : List Effect) : Prop where
  fails : ¬ Starts o job → (stored trace).map (·.state) = [.pending, .failed, .failed]
  runs : Starts o job → ∃ ending, ending.terminal = true ∧ (stored trace).map (·.state) = [.pending, .running, ending]
  reports : reported trace = stored trace
  last : ∃ run, (stored trace).getLast? = some run ∧ run.startedAt.isSome = true ∧ run.finishedAt.isSome = true ∧
    (run.errorMessage.isSome = true ↔ run.state = .failed)
  removed : ∀ keys, id ∉ live id keys trace

/-! ## The two ways -/

section Ways
variable {o : Outcomes} {job : JobDescriptor} {run : JobRun}

theorem buildArgument_ok {p : ParameterInfo} :
    buildArgument job p = .ok () ↔ p.isCancellationToken = true ∨ p.isConsole = true ∨ p.hasDefaultValue = true := by
  unfold buildArgument
  cases p.isCancellationToken <;> cases p.isConsole <;> cases p.hasDefaultValue <;> simp

theorem buildArguments_ok :
    buildArguments job = .ok () ↔
      ∀ p ∈ job.method.parameters, p.isCancellationToken = true ∨ p.isConsole = true ∨ p.hasDefaultValue = true := by
  unfold buildArguments
  rw [forM_ok]
  exact forall₂_congr fun p _ => buildArgument_ok

theorem stopEarly_apply (hs : Outcomes.Stores o) (message stack : String) (s : Execution) :
    stopEarly o message stack s = (.ok (),
      { run := failEarly (o.clock s.reads) message stack s.run, reads := s.reads + 1, updates := s.updates + 1,
        trace := s.trace ++ [.assign (failEarly (o.clock s.reads) message stack s.run),
          .store (failEarly (o.clock s.reads) message stack s.run),
          .report (failEarly (o.clock s.reads) message stack s.run)] }) := by
  simp [stopEarly, updateAsync_apply hs]

/-- The `finally` block closes whatever the outer `try` did. -/
theorem executeAsync_late (hs : Outcomes.Stores o) (ht : acceptsTimeout job = true) {s : Execution}
    {r : Except Exn Unit} (h : tryBlock o job ⟨run, 0, 0, [.store run, .report run, .setCurrent true, .register]⟩ = (r, s)) :
    executeAsync o job run = (r, s.trace ++ finishing (o.clock s.reads) s.run) := by
  have hfin := finallyBlock_apply hs s
  unfold executeAsync createAndStoreRunAsync continueRunAsync
  simp [createTimeoutSource, ht, finally_apply, h, hfin, finishing]

theorem tryBlock_fails (hx : ¬ Starts o job) : ∃ message stack, ∀ s, tryBlock o job s = stopEarly o message stack s := by
  unfold tryBlock
  -- Without an instance the arguments are not looked at.
  by_cases hc : Constructs o job
  · cases ha : buildArguments job with
    | ok u => exact absurd ⟨hc, buildArguments_ok.1 ha⟩ hx
    | error ex =>
      refine ⟨ex.message, ex.text, fun s => ?_⟩
      rcases hc with hc | hc
      · simp [hc]
      · cases hi : job.method.isStatic <;> simp [hc]
  · have hi : job.method.isStatic = false := by simpa using fun h => hc (.inl h)
    cases hthrows : o.constructThrows with
    | none => exact absurd (.inr hthrows) hc
    | some ex =>
      refine ⟨s!"Could not construct {job.declaringType}: {ex.message}", ex.text, fun s => ?_⟩
      have hpure : ∀ r : Except Exn Unit × Execution, (andThen r fun _ => pure ()) = r := by
        rintro ⟨_ | _, _⟩ <;> rfl
      simp only [hi, Bool.not_false, if_true, bind_apply, hpure]

/-- A target or an argument that is missing fails the run early. -/
theorem executeAsync_fails (hs : Outcomes.Stores o) (ht : acceptsTimeout job = true) (hx : ¬ Starts o job) :
    ∃ message stack,
      let failed := failEarly (o.clock 0) message stack run
      executeAsync o job run = (.ok (), [.store run, .report run, .setCurrent true, .register, .assign failed,
        .store failed, .report failed] ++ finishing (o.clock 1) failed) := by
  obtain ⟨message, stack, htry⟩ := tryBlock_fails hx
  refine ⟨message, stack, ?_⟩
  exact executeAsync_late hs ht ((htry _).trans (stopEarly_apply hs message stack _))

theorem executeAsync_runs (hs : Outcomes.Stores o) (ht : acceptsTimeout job = true) (hx : Starts o job) :
    let running := started (o.clock 0) run
    let ended := bodyResult o job running
    executeAsync o job run = (.ok (), [.store run, .report run, .setCurrent true, .register, .assign running,
      .store running, .report running, .invoked, .assign ended] ++ finishing (o.clock 1) ended) := by
  obtain ⟨hc, hargs⟩ := hx
  have ha := buildArguments_ok.2 hargs
  have htry : tryBlock o job ⟨run, 0, 0, [.store run, .report run, .setCurrent true, .register]⟩ = (.ok (),
      { run := bodyResult o job (started (o.clock 0) run), reads := 1, updates := 1,
        trace := [.store run, .report run, .setCurrent true, .register, .assign (started (o.clock 0) run),
          .store (started (o.clock 0) run), .report (started (o.clock 0) run), .invoked,
          .assign (bodyResult o job (started (o.clock 0) run))] }) := by
    unfold tryBlock
    rcases hc with hc | hc
    · simp [hc, ha, updateAsync_apply hs, runBody_apply, started]
    · cases hi : job.method.isStatic <;> simp [hc, ha, updateAsync_apply hs, runBody_apply, started]
  exact executeAsync_late hs ht htry

end Ways

/-! ## The life of a run -/

/-- A failure of the body, and only a failure, leaves a message. -/
theorem bodyResult_message (o : Outcomes) (job : JobDescriptor) {run : JobRun} (h : run.errorMessage = none) :
    (bodyResult o job run).errorMessage.isSome = true ↔ (bodyResult o job run).state = .failed := by
  have hassign : ∀ ex, (assignFailure o job ex run).errorMessage.isSome = true ↔
      (assignFailure o job ex run).state = .failed := by
    intro ex
    unfold assignFailure
    split
    · dsimp only
      split <;> simp [h]
    · simp
  unfold bodyResult
  split
  · simp [h]
  · exact hassign _
  · exact hassign _

theorem bodyResult_startedAt (o : Outcomes) (job : JobDescriptor) (run : JobRun) :
    (bodyResult o job run).startedAt = run.startedAt := by
  have hassign : ∀ ex, (assignFailure o job ex run).startedAt = run.startedAt := by
    intro ex
    unfold assignFailure
    split <;> rfl
  unfold bodyResult
  split
  · rfl
  · exact hassign _
  · exact hassign _

/-- Whatever else is live, the `finally` block takes the run out. -/
theorem not_mem_live_finishing (id : Nat) (now : Instant) (run : JobRun) (keys : List Nat) :
    id ∉ live id keys (finishing now run) := by
  simp [finishing, live]

/-- The life cycle of a run of any discovered job, whatever the job factory, the
arguments and the body do. -/
theorem run_life_cycle (o : Outcomes) (hs : Outcomes.Stores o) (attr : DuckRunJobAttribute) (type : String)
    (method : MethodInfo) (ht : acceptsTimeout (describe attr type method) = true) (id : Nat) (createdAt : Instant)
    (triggerSource : String) :
    let job := describe attr type method
    let (result, trace) := executeAsync o job (createRun id createdAt job triggerSource)
    result = .ok () ∧ LifeCycle o job id trace := by
  intro job
  have hfresh : (createRun id createdAt job triggerSource).errorMessage = none := rfl
  have hpending : (createRun id createdAt job triggerSource).state = .pending := rfl
  generalize createRun id createdAt job triggerSource = run at hfresh hpending
  by_cases hx : Starts o job
  · rw [executeAsync_runs hs ht hx]
    refine ⟨rfl, { fails := fun h => absurd hx h, runs := fun _ => ?_, reports := rfl, last := ?_, removed := ?_ }⟩
    · refine ⟨_, bodyResult_terminal o job (started (o.clock 0) run), ?_⟩
      rw [← hpending]
      rfl
    · refine ⟨_, rfl, ?_, rfl, @bodyResult_message o job (started (o.clock 0) run) hfresh⟩
      exact congrArg Option.isSome (bodyResult_startedAt o job (started (o.clock 0) run))
    · intro keys
      exact not_mem_live_finishing id (o.clock 1) (bodyResult o job (started (o.clock 0) run)) (id :: keys)
  · obtain ⟨message, stack, htrace⟩ := @executeAsync_fails o job run hs ht hx
    rw [htrace]
    refine ⟨rfl, { fails := fun _ => ?_, runs := fun h => absurd h hx, reports := rfl, last := ?_, removed := ?_ }⟩
    · rw [← hpending]
      rfl
    · exact ⟨_, rfl, rfl, rfl, iff_of_true rfl rfl⟩
    · intro keys
      exact not_mem_live_finishing id (o.clock 1) (failEarly (o.clock 0) message stack run) (id :: keys)

/-- A job whose argument does not resolve, and one that runs. -/
theorem life_cycle_nightly :
    let failing := describe nightlyJob "Jobs" needsMailer
    let running := describe nightlyJob "Jobs" needsToken
    LifeCycle quietOutcomes failing 7 (executeAsync quietOutcomes failing (createRun 7 0 failing "Cron")).2 ∧
      LifeCycle quietOutcomes running 8 (executeAsync quietOutcomes running (createRun 8 0 running "Cron")).2 :=
  ⟨(run_life_cycle quietOutcomes (fun _ => rfl) nightlyJob "Jobs" needsMailer (by decide) 7 0 "Cron").2,
    (run_life_cycle quietOutcomes (fun _ => rfl) nightlyJob "Jobs" needsToken (by decide) 8 0 "Cron").2⟩

end DuckRun.Framework.JobExecutor
