import DuckRun.Framework.JobExecutor
/-!
# Executions in both packages

The two `ContinueRunAsync` differ in the arguments they find and in what they do
when there are none; the rest is one program. What an execution does is given
here for a store that may throw at any of its updates: one trace for each way
an execution goes (`execute_early`, `execute_unresolved`, `execute_storeFails`,
`execute_starts`).
-/

namespace DuckRun.Executors

open DuckRun.Lib DuckRun.Lib.Throwing DuckRun.Runtime DuckRun.Runtime.JobExecutor

inductive Package where
  | core
  | framework
  deriving DecidableEq, Repr

section Package
variable (p : Package) (o : Outcomes) (job : JobDescriptor)

def Package.continueRunAsync : Exec Unit :=
  match p with
  | .core => Runtime.JobExecutor.continueRunAsync o job
  | .framework => Framework.JobExecutor.continueRunAsync o job

def Package.tryBlock : Exec Unit :=
  match p with
  | .core => Runtime.JobExecutor.tryBlock o job
  | .framework => Framework.JobExecutor.tryBlock o job

/-- Everything `ContinueRunAsync` does with a run, and how it ends. -/
def Package.execute (run : JobRun) : Except Exn Unit × List Effect :=
  let (result, s) := p.continueRunAsync o job ⟨run, 0, 0, []⟩
  (result, s.trace)

/-- The execution comes to `_live[run.Id] = linkedCts`. -/
def Package.Registers : Prop :=
  match p with
  | .core => o.consoleThrows = none ∧ Runtime.JobExecutor.acceptsTimeout job = true
  | .framework => Framework.JobExecutor.acceptsTimeout job = true

/-- A run that fails before its body: there is no target, or in DuckRun.Framework an argument is missing. -/
def Package.FailsEarly : Prop :=
  match p with
  | .core => ¬ Constructs o job
  | .framework => ¬ Framework.JobExecutor.Starts o job

/-- In DuckRun.Core a missing argument is an exception that nothing catches. -/
def Package.Unresolved : Prop := p = .core ∧ Constructs o job ∧ buildArguments o job ≠ .ok ()

/-- The update of the `finally` block does not throw. It is the second one, or
the first where an argument is missing. -/
def Package.ClosingStores : Prop :=
  (p.Unresolved o job → o.updateThrows 0 = none) ∧ (¬ p.Unresolved o job → o.updateThrows 1 = none)

def Package.ReachesBody : Prop :=
  p.Registers o job ∧ ¬ p.FailsEarly o job ∧ ¬ p.Unresolved o job ∧ o.updateThrows 0 = none

end Package

/-- Storing a run and, if that does not throw, reporting it. -/
def writes (o : Outcomes) (k : Nat) (run : JobRun) : List Effect :=
  match o.updateThrows k with
  | none => [.store run, .report run]
  | some _ => [.storeThrows run]

/-- The `finally` block, with the `k`-th reading of the clock and the `k`-th update. -/
def closing (o : Outcomes) (k : Nat) (run : JobRun) : List Effect :=
  .assign (finish (o.clock k) run) :: writes o k (finish (o.clock k) run) ++
    if (o.updateThrows k).isNone then [.setCurrent false, .unregister] else []

def beforeBody (o : Outcomes) (run : JobRun) : List Effect :=
  [.setCurrent true, .register, .assign (started (o.clock 0) run), .store (started (o.clock 0) run),
    .report (started (o.clock 0) run)]

def afterBody (o : Outcomes) (job : JobDescriptor) (run : JobRun) : List Effect :=
  .assign (bodyResult o job (started (o.clock 0) run)) :: closing o 1 (bodyResult o job (started (o.clock 0) run))

/-! ## The pieces of an execution -/

section Pieces
variable {o : Outcomes} {job : JobDescriptor}

theorem mem_writes {k : Nat} {e : Effect} {run : JobRun} (h : e ∈ writes o k run) :
    e = .store run ∨ e = .storeThrows run ∨ e = .report run := by
  unfold writes at h
  cases hu : o.updateThrows k with
  | none =>
    rw [hu] at h
    rcases List.mem_cons.1 h with he | he
    · exact .inl he
    · exact .inr (.inr (List.mem_singleton.1 he))
  | some ex =>
    rw [hu] at h
    exact .inr (.inl (List.mem_singleton.1 h))

theorem finallyBlock_trace (s : Execution) (hk : s.reads = s.updates) :
    (finallyBlock o s).2.trace = s.trace ++ closing o s.updates s.run := by
  unfold closing writes
  cases h : o.updateThrows s.updates with
  | none => simp [finallyBlock, updateAsync, h, hk, finish]
  | some ex => simp [finallyBlock, updateAsync, h, hk, finish]

theorem stopEarly_trace (message stack : String) (s : Execution) (hk : s.reads = s.updates) :
    ((Framework.JobExecutor.stopEarly o message stack) s).2 =
      { run := Framework.JobExecutor.failEarly (o.clock s.updates) message stack s.run, reads := s.updates + 1,
        updates := s.updates + 1,
        trace := s.trace ++ .assign (Framework.JobExecutor.failEarly (o.clock s.updates) message stack s.run) ::
          writes o s.updates (Framework.JobExecutor.failEarly (o.clock s.updates) message stack s.run) } := by
  unfold writes
  cases h : o.updateThrows s.updates with
  | none => simp [Framework.JobExecutor.stopEarly, updateAsync, h, hk]
  | some ex => simp [Framework.JobExecutor.stopEarly, updateAsync, h, hk]

/-- What the outer `try` does past the arguments. -/
theorem starts_trace (s : Execution) :
    ((do
      let now ← utcNow o
      assign fun run => { run with startedAt := some now, state := .running }
      updateAsync o
      reportRun
      runBody o job : Exec Unit) s).2 =
      match o.updateThrows s.updates with
      | some _ =>
        { run := started (o.clock s.reads) s.run, reads := s.reads + 1, updates := s.updates + 1,
          trace := s.trace ++ [.assign (started (o.clock s.reads) s.run), .storeThrows (started (o.clock s.reads) s.run)] }
      | none =>
        { run := bodyResult o job (started (o.clock s.reads) s.run), reads := s.reads + 1, updates := s.updates + 1,
          trace := s.trace ++ [.assign (started (o.clock s.reads) s.run), .store (started (o.clock s.reads) s.run),
            .report (started (o.clock s.reads) s.run), .invoked,
            .assign (bodyResult o job (started (o.clock s.reads) s.run))] } := by
  cases h : o.updateThrows s.updates with
  | none => simp [updateAsync, h, runBody_apply, started]
  | some ex => simp [updateAsync, h, started]

end Pieces

/-! ## The ways of an execution -/

section Ways
variable {p : Package} {o : Outcomes} {job : JobDescriptor} {run : JobRun}

/-- Before the outer `try`, an exception leaves nothing but the ambient console. -/
theorem execute_unregistered (h : ¬ p.Registers o job) : (p.execute o job run).2 <+: [.setCurrent true] := by
  cases p with
  | core =>
    obtain ⟨ex, trace, hex, hpre⟩ := @Runtime.JobExecutor.execute_early o job run h
    exact (congrArg Prod.snd hex) ▸ hpre
  | framework =>
    have ht : Framework.JobExecutor.acceptsTimeout job = false := by simpa [Package.Registers] using h
    unfold Package.execute Package.continueRunAsync Framework.JobExecutor.continueRunAsync
    simp [Framework.JobExecutor.createTimeoutSource, ht]

/-- The `finally` block closes whatever the outer `try` did. -/
theorem execute_late (h : p.Registers o job) {s : Execution}
    (ht : (p.tryBlock o job ⟨run, 0, 0, [.setCurrent true, .register]⟩).2 = s) (hk : s.reads = s.updates) :
    (p.execute o job run).2 = s.trace ++ closing o s.updates s.run := by
  have hfin := finallyBlock_trace (o := o) s hk
  have hlate : (p.execute o job run).2 = (finallyBlock o s).2.trace := by
    subst ht
    cases p with
    | core =>
      obtain ⟨hc, ht⟩ := h
      unfold Package.execute Package.continueRunAsync Runtime.JobExecutor.continueRunAsync Package.tryBlock
      simp only [hc, Runtime.JobExecutor.createTimeoutSource, ht, if_true, bind_apply, emit_apply, andThen_ok, pure_apply,
        finally_apply, List.nil_append, List.cons_append]
      split <;> simp_all
    | framework =>
      have ht : Framework.JobExecutor.acceptsTimeout job = true := h
      unfold Package.execute Package.continueRunAsync Framework.JobExecutor.continueRunAsync Package.tryBlock
      simp only [Framework.JobExecutor.createTimeoutSource, ht, if_true, bind_apply, emit_apply, andThen_ok, pure_apply,
        finally_apply, List.nil_append, List.cons_append]
      split <;> simp_all
  rw [hlate, hfin]

theorem tryBlock_early (h : p.FailsEarly o job) :
    ∃ message stack, ∀ s, (p.tryBlock o job s).2 = (Framework.JobExecutor.stopEarly o message stack s).2 := by
  cases p with
  | core =>
    have hc : ¬ Constructs o job := h
    have hi : job.method.isStatic = false := by simpa using fun hst => hc (.inl hst)
    cases hthrows : o.constructThrows with
    | none => exact absurd (.inr hthrows) hc
    | some ex =>
      refine ⟨s!"Could not construct {job.declaringType}: {ex.message}", ex.text, fun s => ?_⟩
      have hpure : ∀ r : Except Exn Unit × Execution, (andThen r fun _ => pure ()).2 = r.2 := by
        rintro ⟨_ | _, _⟩ <;> rfl
      unfold Package.tryBlock Runtime.JobExecutor.tryBlock Framework.JobExecutor.stopEarly Framework.JobExecutor.failEarly
      cases hu : o.updateThrows s.updates with
      | none => simp [hi, hthrows, updateAsync, hu]
      | some ex => simp [hi, hthrows, updateAsync, hu]
  | framework =>
    obtain ⟨message, stack, htry⟩ := Framework.JobExecutor.tryBlock_fails h
    exact ⟨message, stack, fun s => congrArg Prod.snd (htry s)⟩

theorem tryBlock_unresolved (h : p.Unresolved o job) (s : Execution) : (p.tryBlock o job s).2 = s := by
  obtain ⟨rfl, hc, ha⟩ := h
  unfold Package.tryBlock
  dsimp only
  rw [tryBlock_constructs hc]
  cases hargs : buildArguments o job with
  | ok u => exact absurd hargs ha
  | error ex => rfl

/-- The body can be invoked, unless the store throws first. -/
theorem tryBlock_starts (hearly : ¬ p.FailsEarly o job) (hargs : ¬ p.Unresolved o job) (s : Execution) :
    p.tryBlock o job s =
      (do
        let now ← utcNow o
        assign fun run => { run with startedAt := some now, state := .running }
        updateAsync o
        reportRun
        runBody o job : Exec Unit) s := by
  cases p with
  | core =>
    have hc : Constructs o job := not_not.1 hearly
    have ha : buildArguments o job = .ok () := by
      by_contra ha
      exact hargs ⟨rfl, hc, ha⟩
    unfold Package.tryBlock
    dsimp only
    rw [tryBlock_constructs hc, ha]
  | framework =>
    obtain ⟨hc, hparams⟩ : Framework.JobExecutor.Starts o job := not_not.1 hearly
    have ha := Framework.JobExecutor.buildArguments_ok.2 hparams
    unfold Package.tryBlock Framework.JobExecutor.tryBlock
    rcases hc with hc | hc
    · simp [hc, ha]
    · cases hi : job.method.isStatic <;> simp [hc, ha]

/-- A run that fails early is stored and reported by the `catch`, and by the `finally` block again. -/
theorem execute_early (hr : p.Registers o job) (h : p.FailsEarly o job) : ∃ message stack,
    let failed := Framework.JobExecutor.failEarly (o.clock 0) message stack run
    (p.execute o job run).2 = [.setCurrent true, .register, .assign failed] ++ writes o 0 failed ++ closing o 1 failed := by
  obtain ⟨message, stack, htry⟩ := tryBlock_early h
  refine ⟨message, stack, ?_⟩
  have hstop := stopEarly_trace (o := o) message stack ⟨run, 0, 0, [.setCurrent true, .register]⟩ rfl
  rw [execute_late hr ((htry _).trans hstop) rfl]
  simp

theorem execute_unresolved (hr : p.Registers o job) (h : p.Unresolved o job) :
    (p.execute o job run).2 = [.setCurrent true, .register] ++ closing o 0 run :=
  execute_late hr (tryBlock_unresolved h _) rfl

theorem execute_storeFails (hr : p.Registers o job) (hearly : ¬ p.FailsEarly o job) (hargs : ¬ p.Unresolved o job) {ex : Exn}
    (hu : o.updateThrows 0 = some ex) :
    let running := started (o.clock 0) run
    (p.execute o job run).2 = [.setCurrent true, .register, .assign running, .storeThrows running] ++ closing o 1 running := by
  have hstart := @starts_trace o job ⟨run, 0, 0, [.setCurrent true, .register]⟩
  dsimp only at hstart
  rw [hu] at hstart
  exact execute_late hr ((congrArg Prod.snd (tryBlock_starts hearly hargs _)).trans hstart) rfl

theorem execute_starts (hr : p.Registers o job) (hearly : ¬ p.FailsEarly o job) (hargs : ¬ p.Unresolved o job)
    (hu : o.updateThrows 0 = none) :
    let running := started (o.clock 0) run
    let ended := bodyResult o job running
    (p.execute o job run).2 = [.setCurrent true, .register, .assign running, .store running, .report running, .invoked,
      .assign ended] ++ closing o 1 ended := by
  have hstart := @starts_trace o job ⟨run, 0, 0, [.setCurrent true, .register]⟩
  dsimp only at hstart
  rw [hu] at hstart
  exact execute_late hr ((congrArg Prod.snd (tryBlock_starts hearly hargs _)).trans hstart) rfl

theorem closingStores_iff : p.ClosingStores o job ↔
    (p.Unresolved o job ∧ o.updateThrows 0 = none) ∨ (¬ p.Unresolved o job ∧ o.updateThrows 1 = none) := by
  unfold Package.ClosingStores
  by_cases h : p.Unresolved o job <;> simp [h]

/-- Whatever way it goes, an execution that registers its run ends with its
`finally` block, and up to there leaves the table and the console alone. -/
theorem execute_closes (hr : p.Registers o job) : ∃ before k last,
    (p.execute o job run).2 = [.setCurrent true, .register] ++ before ++ closing o k last ∧
    (∀ e ∈ before, e ≠ .register ∧ e ≠ .unregister ∧ ∀ console, e ≠ .setCurrent console) ∧
    (p.ClosingStores o job ↔ o.updateThrows k = none) := by
  by_cases hargs : p.Unresolved o job
  · refine ⟨[], 0, run, ?_, by simp, by simp [closingStores_iff, hargs]⟩
    rw [execute_unresolved hr hargs, List.append_nil]
  have hk : p.ClosingStores o job ↔ o.updateThrows 1 = none := by simp [closingStores_iff, hargs]
  by_cases hearly : p.FailsEarly o job
  · obtain ⟨message, stack, htrace⟩ := @execute_early p o job run hr hearly
    generalize Framework.JobExecutor.failEarly (o.clock 0) message stack run = failed at htrace
    refine ⟨.assign failed :: writes o 0 failed, 1, failed, ?_, ?_, hk⟩
    · rw [htrace]
      rfl
    · unfold writes
      cases o.updateThrows 0 <;> simp
  · cases h0 : o.updateThrows 0 with
    | some ex =>
      refine ⟨[.assign (started (o.clock 0) run), .storeThrows (started (o.clock 0) run)], 1, started (o.clock 0) run, ?_, by simp, hk⟩
      rw [execute_storeFails hr hearly hargs h0]
      rfl
    | none =>
      refine ⟨[.assign (started (o.clock 0) run), .store (started (o.clock 0) run), .report (started (o.clock 0) run), .invoked,
        .assign (bodyResult o job (started (o.clock 0) run))], 1, bodyResult o job (started (o.clock 0) run), ?_, by simp, hk⟩
      rw [execute_starts hr hearly hargs h0]
      rfl

/-! ## Up to the body, and past it -/

theorem execute_reaches (h : p.ReachesBody o job) :
    (p.execute o job run).2 = beforeBody o run ++ .invoked :: afterBody o job run := by
  obtain ⟨hr, hearly, hargs, hu⟩ := h
  rw [execute_starts hr hearly hargs hu]
  rfl

theorem invoked_notMem_writes (k : Nat) : .invoked ∉ writes o k run := by
  intro h
  rcases mem_writes h with h | h | h <;> cases h

theorem invoked_notMem_closing (k : Nat) : .invoked ∉ closing o k run := by
  unfold closing
  cases o.updateThrows k <;> simp [invoked_notMem_writes]

theorem invoked_notMem_before : .invoked ∉ beforeBody o run := by
  simp [beforeBody]

theorem invoked_notMem_after : .invoked ∉ afterBody o job run := by
  unfold afterBody
  simp [invoked_notMem_closing]

theorem invoked_mem_iff : .invoked ∈ (p.execute o job run).2 ↔ p.ReachesBody o job := by
  constructor
  · intro hmem
    by_contra hnot
    have hr : p.Registers o job := by
      by_contra hr
      have hsilent := (@execute_unregistered p o job run hr).mem hmem
      cases List.mem_singleton.1 hsilent
    by_cases hearly : p.FailsEarly o job
    · obtain ⟨message, stack, htrace⟩ := @execute_early p o job run hr hearly
      rw [htrace] at hmem
      simp [invoked_notMem_writes, invoked_notMem_closing] at hmem
    · by_cases hargs : p.Unresolved o job
      · rw [execute_unresolved hr hargs] at hmem
        simp [invoked_notMem_closing] at hmem
      · cases h0 : o.updateThrows 0 with
        | none => exact hnot ⟨hr, hearly, hargs, h0⟩
        | some ex =>
          rw [execute_storeFails hr hearly hargs h0] at hmem
          simp [invoked_notMem_closing] at hmem
  · intro h
    rw [execute_reaches h]
    simp

end Ways

/-! ## How the body ends -/

/-- The exception that `AssignFailure` gets. -/
def caught (o : Outcomes) : Option Exn :=
  match invoke o with
  | .ok () => none
  | .error (.targetInvocation message text inner) => some (inner.getD (.targetInvocation message text inner))
  | .error ex => some ex

theorem caught_eq_none {o : Outcomes} : caught o = none ↔ invoke o = .ok () := by
  unfold caught
  cases invoke o with
  | ok u => simp
  | error ex => cases ex <;> simp

theorem bodyResult_state (o : Outcomes) (job : JobDescriptor) (run : JobRun) :
    (bodyResult o job run).state = match caught o with
      | none => .succeeded
      | some ex => if ex.isCanceled then if job.timeout.isSome && o.timedOut then .timedOut else .cancelled else .failed := by
  have hassign : ∀ ex, (assignFailure o job ex run).state =
      if ex.isCanceled then if job.timeout.isSome && o.timedOut then .timedOut else .cancelled else .failed := by
    intro ex
    unfold assignFailure
    split <;> rfl
  unfold bodyResult caught
  cases h : invoke o with
  | ok u => rfl
  | error ex => cases ex <;> exact hassign _

/-! ## What the body decides nothing about -/

section Actual
variable {p : Package} {o : Outcomes} {job : JobDescriptor} {invoke : Except Exn Invoked} {timedOut : Bool}

theorem registers_actual : p.Registers { o with invoke, timedOut } job ↔ p.Registers o job := by
  cases p <;> exact Iff.rfl

theorem closingStores_actual : p.ClosingStores { o with invoke, timedOut } job ↔ p.ClosingStores o job := by
  cases p <;> exact Iff.rfl

theorem reachesBody_actual : p.ReachesBody { o with invoke, timedOut } job ↔ p.ReachesBody o job := by
  cases p <;> exact Iff.rfl

end Actual

end DuckRun.Executors
