import DuckRun.Runtime.JobExecutor
import DuckRun.Lib.Folds
/-!
# The states a run goes through

What `ContinueRunAsync` does with a run when the store does not throw, in the
four ways it can go (`execute_early`, `execute_constructFails`,
`execute_argumentsFail`, `execute_runs`), and when the last record it leaves is
a finished one.
-/

namespace DuckRun.Runtime

open DuckRun.Lib

namespace JobExecutor

open Throwing

/-- No `UpdateAsync` throws. -/
def Outcomes.Stores (o : Outcomes) : Prop := ∀ k, o.updateThrows k = none

/-- The run after the body's `try`. -/
def bodyResult (o : Outcomes) (job : JobDescriptor) (run : JobRun) : JobRun :=
  match invoke o with
  | .ok () => { run with state := .succeeded }
  | .error (.targetInvocation message text inner) =>
    assignFailure o job (inner.getD (.targetInvocation message text inner)) run
  | .error ex => assignFailure o job ex run

/-! ## One primitive after the other -/

section Primitives
variable {o : Outcomes} {job : JobDescriptor}

@[simp] theorem emit_apply (e : Effect) (s : Execution) : emit e s = (.ok (), { s with trace := s.trace ++ [e] }) := rfl

@[simp] theorem assign_apply (f : JobRun → JobRun) (s : Execution) :
    assign f s = (.ok (), { s with run := f s.run, trace := s.trace ++ [.assign (f s.run)] }) := rfl

@[simp] theorem utcNow_apply (s : Execution) : utcNow o s = (.ok (o.clock s.reads), { s with reads := s.reads + 1 }) := rfl

@[simp] theorem reportRun_apply (s : Execution) :
    reportRun s = (.ok (), { s with trace := s.trace ++ [.report s.run] }) := rfl

theorem updateAsync_apply (h : Outcomes.Stores o) (s : Execution) :
    updateAsync o s = (.ok (), { s with updates := s.updates + 1, trace := s.trace ++ [.store s.run] }) := by
  simp [updateAsync, h s.updates]

theorem runBody_apply (s : Execution) :
    runBody o job s = (.ok (), { s with
      run := bodyResult o job s.run, trace := s.trace ++ [.invoked, .assign (bodyResult o job s.run)] }) := by
  unfold runBody bodyResult
  cases h : invoke o with
  | ok u => simp
  | error ex => cases ex <;> simp

/-- The run as the `finally` block leaves it. -/
def finish (now : Instant) (run : JobRun) : JobRun := { run with finishedAt := some now }

theorem finallyBlock_apply (h : Outcomes.Stores o) (s : Execution) :
    finallyBlock o s = (.ok (),
      { run := finish (o.clock s.reads) s.run, reads := s.reads + 1, updates := s.updates + 1,
        trace := s.trace ++ [.assign (finish (o.clock s.reads) s.run), .store (finish (o.clock s.reads) s.run),
          .report (finish (o.clock s.reads) s.run), .setCurrent false, .unregister] }) := by
  simp [finallyBlock, updateAsync_apply h, finish]

end Primitives

/-! ## The four ways -/

section Ways
variable {o : Outcomes} {job : JobDescriptor} {run : JobRun}

/-- Before the outer `try`, an exception leaves nothing stored. -/
theorem execute_early (h : ¬ (o.consoleThrows = none ∧ acceptsTimeout job = true)) :
    ∃ ex trace, execute o job run = (.error ex, trace) ∧ trace <+: [.setCurrent true] := by
  unfold execute continueRunAsync
  cases hc : o.consoleThrows with
  | some ex => exact ⟨ex, [], by simp, by simp⟩
  | none =>
    have ht : acceptsTimeout job = false := by simpa [hc] using h
    refine ⟨.other "delay" "System.ArgumentOutOfRangeException", [.setCurrent true], ?_, List.prefix_refl _⟩
    simp [createTimeoutSource, ht]

/-- What the outer `finally` adds. -/
def finishing (now : Instant) (run : JobRun) : List Effect :=
  [.assign (finish now run), .store (finish now run), .report (finish now run), .setCurrent false, .unregister]

theorem execute_late (hs : Outcomes.Stores o) (hc : o.consoleThrows = none) (ht : acceptsTimeout job = true)
    {s : Execution} {r : Except Exn Unit}
    (h : tryBlock o job ⟨run, 0, 0, [.setCurrent true, .register]⟩ = (r, s)) :
    execute o job run = (r, s.trace ++ finishing (o.clock s.reads) s.run) := by
  have hfin := finallyBlock_apply hs s
  unfold execute continueRunAsync
  simp [hc, createTimeoutSource, ht, finally_apply, h, hfin, finishing]

/-- The run as the `catch` around the constructor leaves it. -/
def constructFailure (now : Instant) (job : JobDescriptor) (ex : Exn) (run : JobRun) : JobRun :=
  { run with
    state := .failed
    errorMessage := some s!"Could not construct {job.declaringType}: {ex.message}"
    errorStackTrace := some ex.text
    startedAt := some now
    finishedAt := some now }

theorem execute_constructFails (hs : Outcomes.Stores o) (hc : o.consoleThrows = none) (ht : acceptsTimeout job = true)
    (hi : job.method.isStatic = false) {ex : Exn} (hx : o.constructThrows = some ex) :
    let failed := constructFailure (o.clock 0) job ex run
    execute o job run = (.ok (), [.setCurrent true, .register, .assign failed, .store failed, .report failed] ++
      finishing (o.clock 1) failed) := by
  have htry : tryBlock o job ⟨run, 0, 0, [.setCurrent true, .register]⟩ = (.ok (),
      { run := constructFailure (o.clock 0) job ex run, reads := 1, updates := 1,
        trace := [.setCurrent true, .register, .assign (constructFailure (o.clock 0) job ex run),
          .store (constructFailure (o.clock 0) job ex run), .report (constructFailure (o.clock 0) job ex run)] }) := by
    simp [tryBlock, hi, hx, updateAsync_apply hs, constructFailure]
  exact execute_late hs hc ht htry

/-- The constructor is not reached or does not throw. -/
def Constructs (o : Outcomes) (job : JobDescriptor) : Prop := job.method.isStatic = true ∨ o.constructThrows = none

/-- Past the constructor, the outer `try` is the arguments and the body. -/
theorem tryBlock_constructs (h : Constructs o job) (s : Execution) :
    tryBlock o job s = match buildArguments o job with
      | .error ex => (.error ex, s)
      | .ok () => (do
          let now ← utcNow o
          assign fun run => { run with startedAt := some now, state := .running }
          updateAsync o
          reportRun
          runBody o job : Exec Unit) s := by
  unfold tryBlock
  rcases h with h | h
  · cases ha : buildArguments o job <;> simp [h]
  · cases hi : job.method.isStatic <;> cases ha : buildArguments o job <;> simp [h]

theorem execute_argumentsFail (hs : Outcomes.Stores o) (hc : o.consoleThrows = none) (ht : acceptsTimeout job = true)
    (hx : Constructs o job) {ex : Exn} (ha : buildArguments o job = .error ex) :
    execute o job run = (.error ex, [.setCurrent true, .register] ++ finishing (o.clock 0) run) := by
  have htry := tryBlock_constructs hx ⟨run, 0, 0, [.setCurrent true, .register]⟩
  rw [ha] at htry
  exact execute_late hs hc ht htry

/-- The run as it is when the body starts. -/
def started (now : Instant) (run : JobRun) : JobRun := { run with startedAt := some now, state := .running }

theorem execute_runs (hs : Outcomes.Stores o) (hc : o.consoleThrows = none) (ht : acceptsTimeout job = true)
    (hx : Constructs o job) (ha : buildArguments o job = .ok ()) :
    let running := started (o.clock 0) run
    let ended := bodyResult o job running
    execute o job run = (.ok (), [.setCurrent true, .register, .assign running, .store running, .report running,
      .invoked, .assign ended] ++ finishing (o.clock 1) ended) := by
  have htry := tryBlock_constructs hx ⟨run, 0, 0, [.setCurrent true, .register]⟩
  simp only [ha, bind_apply, utcNow_apply, andThen_ok, assign_apply, updateAsync_apply hs, reportRun_apply,
    runBody_apply] at htry
  exact execute_late hs hc ht htry

end Ways

/-! ## The records of a run -/

/-- The service of parameter `i`, or its default, is there. -/
def Resolves (o : Outcomes) (p : ParameterInfo) (i : Nat) : Prop :=
  p.isCancellationToken = true ∨ o.getService i = .ok true ∨ (o.getService i = .ok false ∧ p.hasDefaultValue = true)

theorem buildArgument_ok {o : Outcomes} {job : JobDescriptor} {p : ParameterInfo} {i : Nat} :
    buildArgument o job p i = .ok () ↔ Resolves o p i := by
  unfold buildArgument Resolves
  cases hct : p.isCancellationToken with
  | true => simp
  | false =>
    cases hg : o.getService i with
    | error ex => simp
    | ok resolved => cases resolved <;> cases hd : p.hasDefaultValue <;> simp

theorem buildArguments_ok {o : Outcomes} {job : JobDescriptor} :
    buildArguments o job = .ok () ↔ ∀ x ∈ job.method.parameters.zipIdx, Resolves o x.1 x.2 := by
  unfold buildArguments
  rw [forM_ok]
  exact forall₂_congr fun x _ => buildArgument_ok

/-- The record a stored effect leaves. -/
def Effect.stored : Effect → Option JobRun
  | .store run => some run
  | _ => none

/-- Everything stored for a run: the record it was created with, then the updates. -/
def records (o : Outcomes) (job : JobDescriptor) (run : JobRun) : List JobRun :=
  run :: (execute o job run).2.filterMap Effect.stored

/-- The last record is finished, and no record is finished in a state a run passes through. -/
structure FinishesWell (records : List JobRun) : Prop where
  last : ∃ r, records.getLast? = some r ∧ r.state.terminal = true ∧ r.finishedAt.isSome = true
  honest : ∀ r ∈ records, r.finishedAt.isSome = true → r.state.terminal = true

theorem bodyResult_terminal (o : Outcomes) (job : JobDescriptor) (run : JobRun) :
    (bodyResult o job run).state.terminal = true := by
  have hassign : ∀ ex, (assignFailure o job ex run).state.terminal = true := by
    intro ex
    unfold assignFailure
    split
    · dsimp only
      split <;> rfl
    · rfl
  unfold bodyResult
  split
  · rfl
  · exact hassign _
  · exact hassign _

/-- The console is the scoped one, the timeout is one a timer takes, and every
argument resolves unless the constructor throws first. -/
structure ReachesEnd (o : Outcomes) (attr : DuckRunJobAttribute) (method : MethodInfo) : Prop where
  console : o.consoleThrows = none
  timeout : attr.timeoutSeconds ≤ 4294967
  arguments : (method.isStatic = false ∧ o.constructThrows ≠ none) ∨
    ∀ x ∈ method.parameters.zipIdx, Resolves o x.1 x.2

theorem acceptsTimeout_describe (attr : DuckRunJobAttribute) (type : String) (method : MethodInfo) :
    acceptsTimeout (describe attr type method) = true ↔ attr.timeoutSeconds ≤ 4294967 := by
  unfold acceptsTimeout describe maxSupportedTimeout TimeSpan.totalMilliseconds TimeSpan.fromSeconds
  dsimp only
  split
  · simp only [Option.all_some, decide_eq_true_eq]
    omega
  · simp only [Option.all_none, true_iff]
    omega

/-! ## Which records there are -/

section Records
variable {o : Outcomes} {job : JobDescriptor} {run : JobRun}

theorem records_early (h : ¬ (o.consoleThrows = none ∧ acceptsTimeout job = true)) : records o job run = [run] := by
  obtain ⟨ex, trace, hex, hpre⟩ := @execute_early o job run h
  have hnone : trace.filterMap Effect.stored = [] := by
    rcases List.prefix_cons_iff.1 hpre with rfl | ⟨t, rfl, ht⟩
    · rfl
    · rw [List.prefix_nil.1 ht]
      rfl
  rw [records, hex, hnone]

theorem records_constructFails (hs : Outcomes.Stores o) (hc : o.consoleThrows = none) (ht : acceptsTimeout job = true)
    (hi : job.method.isStatic = false) {ex : Exn} (hx : o.constructThrows = some ex) :
    records o job run = [run, constructFailure (o.clock 0) job ex run,
      finish (o.clock 1) (constructFailure (o.clock 0) job ex run)] := by
  rw [records, execute_constructFails hs hc ht hi hx]
  rfl

theorem records_argumentsFail (hs : Outcomes.Stores o) (hc : o.consoleThrows = none) (ht : acceptsTimeout job = true)
    (hx : Constructs o job) {ex : Exn} (ha : buildArguments o job = .error ex) :
    records o job run = [run, finish (o.clock 0) run] := by
  rw [records, execute_argumentsFail hs hc ht hx ha]
  rfl

theorem records_runs (hs : Outcomes.Stores o) (hc : o.consoleThrows = none) (ht : acceptsTimeout job = true)
    (hx : Constructs o job) (ha : buildArguments o job = .ok ()) :
    records o job run = [run, started (o.clock 0) run,
      finish (o.clock 1) (bodyResult o job (started (o.clock 0) run))] := by
  rw [records, execute_runs hs hc ht hx ha]
  rfl

end Records

/-- Records that all but the last are unfinished, or in a terminal state, end well if the last one does. -/
theorem finishesWell_append {rs : List JobRun} {r : JobRun} (hr : r.state.terminal = true)
    (hf : r.finishedAt.isSome = true) (hrs : ∀ x ∈ rs, x.finishedAt.isSome = true → x.state.terminal = true) :
    FinishesWell (rs ++ [r]) where
  last := ⟨r, by simp, hr, hf⟩
  honest x hx hxf := by
    rcases List.mem_append.1 hx with hx | hx
    · exact hrs x hx hxf
    · rw [List.mem_singleton.1 hx]
      exact hr

theorem FinishesWell.last_eq {rs : List JobRun} {r : JobRun} (h : FinishesWell (rs ++ [r])) :
    r.state.terminal = true := by
  obtain ⟨x, hx, hterm, -⟩ := h.last
  rw [List.getLast?_append_of_ne_nil _ (by simp), List.getLast?_singleton] at hx
  cases hx
  exact hterm

/-- A run of a discovered job ends in a finished record exactly when the
execution reaches the end of one of its `try` blocks. -/
theorem finishesWell_iff (o : Outcomes) (hs : Outcomes.Stores o) (attr : DuckRunJobAttribute) (type : String)
    (method : MethodInfo) (id : Nat) (createdAt : Instant) (triggerSource : String) :
    let job := describe attr type method
    FinishesWell (records o job (createRun id createdAt job triggerSource)) ↔ ReachesEnd o attr method := by
  intro job
  generalize hrun : createRun id createdAt job triggerSource = run
  have hpending : run.state.terminal = false := by rw [← hrun]; rfl
  have hunfinished : run.finishedAt.isSome = false := by rw [← hrun]; rfl
  have hfirst : run.finishedAt.isSome = true → run.state.terminal = true := by simp [hunfinished]
  by_cases hearly : o.consoleThrows = none ∧ acceptsTimeout job = true
  · obtain ⟨hc, ht⟩ := hearly
    have htimeout := (acceptsTimeout_describe attr type method).1 ht
    by_cases hx : Constructs o job
    · cases ha : buildArguments o job with
      | error ex =>
        -- The `finally` block finishes a run that is still pending.
        rw [records_argumentsFail hs hc ht hx ha]
        constructor
        · intro h
          have hlast := @FinishesWell.last_eq [run] _ h
          exact absurd (hpending.symm.trans hlast) (by decide)
        · intro h
          have hargs : buildArguments o job = .ok () := by
            rcases h.arguments with ⟨hi, hthrows⟩ | hres
            · exact absurd hx (by rintro (hst | hnone); exacts [by simp [job, describe, hi] at hst, hthrows hnone])
            · exact buildArguments_ok.2 hres
          rw [ha] at hargs
          cases hargs
      | ok u =>
        rw [records_runs hs hc ht hx ha]
        refine iff_of_true ?_ ⟨hc, htimeout, .inr (buildArguments_ok.1 ha)⟩
        refine @finishesWell_append [run, _] _ (bodyResult_terminal o job _) rfl ?_
        intro x hxm hxf
        simp only [List.mem_cons, List.not_mem_nil, or_false] at hxm
        rcases hxm with rfl | rfl
        · exact hfirst hxf
        · exact absurd hxf (by simp [started, hunfinished])
    · have hi : job.method.isStatic = false := by simpa using fun h => hx (.inl h)
      cases hthrows : o.constructThrows with
      | none => exact absurd (.inr hthrows) hx
      | some ex =>
        rw [records_constructFails hs hc ht hi hthrows]
        refine iff_of_true ?_ ⟨hc, htimeout, .inl ⟨hi, by simp [hthrows]⟩⟩
        refine @finishesWell_append [run, _] _ rfl rfl ?_
        intro x hxm hxf
        simp only [List.mem_cons, List.not_mem_nil, or_false] at hxm
        rcases hxm with rfl | rfl
        · exact hfirst hxf
        · rfl
  · rw [records_early hearly]
    refine iff_of_false ?_ ?_
    · intro h
      have hlast := @FinishesWell.last_eq [] _ h
      exact absurd (hpending.symm.trans hlast) (by decide)
    · exact fun h => hearly ⟨h.console, (acceptsTimeout_describe attr type method).2 h.timeout⟩

/-! ## Two executions -/

/-- Nothing throws, and no service is registered. -/
def quietOutcomes : Outcomes where
  consoleThrows := none
  constructThrows := none
  getService _ := .ok false
  invoke := .ok (.task (.ok ()))
  timedOut := false
  clock k := k
  updateThrows _ := none

def nightlyJob : DuckRunJobAttribute := ⟨"nightly", "0 3 * * *", 1, 60, true, true⟩

/-- The static method `Run(IMailer mailer)`, with no mailer registered. -/
def needsMailer : MethodInfo := ⟨"Run", true, [⟨"mailer", "IMailer", false, false, false⟩]⟩

/-- `Run(CancellationToken ct)`. -/
def needsToken : MethodInfo := ⟨"Run", true, [⟨"ct", "CancellationToken", true, false, false⟩]⟩

/-- An argument that does not resolve leaves a finished record of a pending run. -/
theorem pending_can_finish :
    ¬ ∀ (o : Outcomes), Outcomes.Stores o → ∀ (attr : DuckRunJobAttribute) (type : String) (method : MethodInfo)
      (id : Nat) (createdAt : Instant) (triggerSource : String),
      FinishesWell (records o (describe attr type method) (createRun id createdAt (describe attr type method)
        triggerSource)) := by
  intro h
  have hbad := (h quietOutcomes (fun _ => rfl) nightlyJob "Jobs" needsMailer 7 0 "Cron").honest
    (finish 0 (createRun 7 0 (describe nightlyJob "Jobs" needsMailer) "Cron")) (by decide) rfl
  cases hbad

theorem finishesWell_needsToken :
    FinishesWell (records quietOutcomes (describe nightlyJob "Jobs" needsToken)
      (createRun 7 0 (describe nightlyJob "Jobs" needsToken) "Cron")) := by
  have hend : ReachesEnd quietOutcomes nightlyJob needsToken := by
    refine ⟨rfl, by decide, .inr ?_⟩
    simp [needsToken, Resolves]
  exact (finishesWell_iff quietOutcomes (fun _ => rfl) nightlyJob "Jobs" needsToken 7 0 "Cron").2 hend

end JobExecutor

end DuckRun.Runtime
