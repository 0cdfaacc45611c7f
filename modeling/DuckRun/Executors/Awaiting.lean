import DuckRun.Executors.Traces
/-!
# Waiting for the body

`ContinueRunAsync` tells by the type of the boxed result whether there is
something to await. For every return type but one it goes on when the body is
over. A `ValueTask<T>` it takes for a value: the run is Succeeded and its slot
free while the body still runs, and an exception of the body is lost.
-/

namespace DuckRun.Executors

open DuckRun.Lib DuckRun.Runtime DuckRun.Runtime.JobExecutor

/-- A run whose body was invoked is finalised after the body, and Succeeded is
only for a body that completed without an exception. -/
structure Awaited (r : BackgroundRun) : Prop where
  stored : r.body ≠ .idle → ∀ run, .store run ∈ r.trace → run.state.terminal = true → r.bodyOver
  released : r.body ≠ .idle → r.phase = .released → r.bodyOver
  succeeded : ∀ run, .store run ∈ r.trace → run.state = .succeeded → ∃ signal, r.body = .completed signal (.ok ())

/-! ## What the body does -/

/-- A run is created pending; what does not pend is complete when the method has returned. -/
structure Begun (r : BackgroundRun) : Prop where
  created : r.created.state = .pending
  pends : r.body = .pending → r.returns.pends = true
  plain : ∀ signal ending, r.body = .completed signal ending → r.returns.pends = false → ending = .ok ()

section Run
variable {p : Package} {r r' : BackgroundRun} {stopping : Bool}

theorem begun_act {a : RunAct} (h : Begun r) (ha : r.act p stopping a = some r') : Begun r' := by
  cases a with
  | effect =>
    simp only [BackgroundRun.act] at ha
    split at ha <;> cases ha
    rename_i e todo hphase
    by_cases he : e = .invoked
    · have hbody : (r.perform stopping e todo).body = .running := if_pos he
      exact ⟨h.created, by simp [hbody], by simp [hbody]⟩
    · have hbody : (r.perform stopping e todo).body = r.body := if_neg he
      exact ⟨h.created, by rw [hbody]; exact h.pends, by rw [hbody]; exact h.plain⟩
  | throws ex =>
    simp only [BackgroundRun.act] at ha
    split at ha <;> cases ha
    exact ⟨h.created, by simp, by simp⟩
  | returns =>
    simp only [BackgroundRun.act] at ha
    split at ha <;> cases ha
    cases hp : r.returns.pends with
    | true => exact ⟨h.created, fun _ => hp, by simp⟩
    | false =>
      refine ⟨h.created, by simp, fun signal ending hb _ => ?_⟩
      cases hb
      rfl
  | completes ending =>
    simp only [BackgroundRun.act] at ha
    split at ha <;> cases ha
    rename_i hb
    refine ⟨h.created, by simp, fun signal ending' _ hp => ?_⟩
    rw [h.pends hb] at hp
    cases hp
  | resume =>
    simp only [BackgroundRun.act] at ha
    split at ha <;> cases ha
    exact ⟨h.created, h.pends, h.plain⟩
  | begin_ | elapse | stopSignals | idReturned | ends | release =>
    simp only [BackgroundRun.act] at ha
    split at ha <;> cases ha
    exact ⟨h.created, h.pends, h.plain⟩

/-- Gone on, the execution has an awaited body behind it. -/
theorem Follows.bodyOver (h : Follows p r) (hb : Begun r) (hreturns : r.returns ≠ .valueTaskOf) (hbody : r.body ≠ .idle)
    (hphase : r.phase ≠ .inBody) : r.bodyOver := by
  have hgone := h.goneOn hbody hphase
  unfold BackgroundRun.invoked at hgone
  unfold BackgroundRun.bodyOver
  cases hbd : r.body with
  | idle | running => simp [hbd] at hgone
  | pending =>
    have hpends := hb.pends hbd
    rw [hbd] at hgone
    cases hr : r.returns <;> simp_all [Awaitable.pends, Awaitable.awaited]
  | threw | completed => trivial

/-- Before the body nothing terminal is stored. -/
theorem stored_beforeBody {o : Outcomes} {created run : JobRun} (h : .store run ∈ beforeBody o created) :
    run.state = .running := by
  simp only [beforeBody, List.mem_cons, List.not_mem_nil, or_false, reduceCtorEq, false_or, Effect.store.injEq] at h
  rw [h]
  rfl

theorem stored_writes {o : Outcomes} {k : Nat} {last run : JobRun} (h : .store run ∈ writes o k last) : run = last := by
  rcases mem_writes h with h | h | h <;> cases h
  rfl

theorem stored_closing {o : Outcomes} {k : Nat} {last run : JobRun} (h : .store run ∈ closing o k last) :
    run = finish (o.clock k) last := by
  rw [closing, List.mem_append, List.mem_cons] at h
  rcases h with (h | h) | h
  · cases h
  · exact stored_writes h
  · split at h <;> simp at h

/-- An execution that does not come to its body stores no success. -/
theorem stored_unreached {o : Outcomes} {job : JobDescriptor} {created run : JobRun} (hcreated : created.state = .pending)
    (hnot : ¬ p.ReachesBody o job) (h : .store run ∈ (p.execute o job created).2) : run.state ≠ .succeeded := by
  by_cases hr : p.Registers o job
  · by_cases hearly : p.FailsEarly o job
    · obtain ⟨message, stack, htrace⟩ := @execute_early p o job created hr hearly
      have hfailed : (Framework.JobExecutor.failEarly (o.clock 0) message stack created).state = .failed := rfl
      generalize Framework.JobExecutor.failEarly (o.clock 0) message stack created = failed at htrace hfailed
      rw [htrace, List.mem_append, List.mem_append] at h
      rcases h with (h | h) | h
      · simp at h
      · simp [stored_writes h, hfailed]
      · simp [stored_closing h, finish, hfailed]
    · by_cases hargs : p.Unresolved o job
      · rw [execute_unresolved hr hargs, List.mem_append] at h
        rcases h with h | h
        · simp at h
        · simp [stored_closing h, finish, hcreated]
      · cases h0 : o.updateThrows 0 with
        | none => exact absurd ⟨hr, hearly, hargs, h0⟩ hnot
        | some ex =>
          rw [execute_storeFails hr hearly hargs h0, List.mem_append] at h
          rcases h with h | h
          · simp at h
          · simp [stored_closing h, finish, started]
  · have hmem := (execute_unregistered hr).mem h
    cases List.mem_singleton.1 hmem

/-- A beginning that does not have `x` in it stops before `x`. -/
theorem prefix_before {α : Type} {t before after : List α} {x : α} (h : t <+: before ++ x :: after) (hx : x ∉ t) : t <+: before := by
  obtain ⟨rest, hrest⟩ := h
  rcases List.append_eq_append_iff.1 hrest with ⟨c, hbefore, -⟩ | ⟨c, ht, hc⟩
  · exact ⟨c, hbefore.symm⟩
  · cases c with
    | nil => exact ⟨[], by simpa using ht⟩
    | cons y c =>
      obtain ⟨rfl, -⟩ := List.cons.inj hc
      exact absurd (ht ▸ List.mem_append_right _ List.mem_cons_self) hx

/-- A success that an execution stores is one of its body. -/
theorem stored_success {o : Outcomes} {job : JobDescriptor} {created run : JobRun} (hreach : p.ReachesBody o job)
    (h : .store run ∈ (p.execute o job created).2) (hstate : run.state = .succeeded) : invoke o = .ok () := by
  rw [execute_reaches hreach, List.mem_append, List.mem_cons] at h
  rcases h with h | h | h
  · rw [stored_beforeBody h] at hstate
    cases hstate
  · cases h
  · unfold afterBody at h
    have hrun := stored_closing ((List.mem_cons.1 h).resolve_left nofun)
    have hended : (bodyResult o job (started (o.clock 0) created)).state = .succeeded := by
      rw [hrun] at hstate
      exact hstate
    rw [bodyResult_state] at hended
    cases hc : caught o with
    | none => exact caught_eq_none.1 hc
    | some ex =>
      rw [hc] at hended
      dsimp only at hended
      split at hended
      · split at hended <;> cases hended
      · cases hended

/-- What succeeded was a body that completed without an exception. -/
theorem Follows.completed_of_ok (h : Follows p r) (hb : Begun r) (hreturns : r.returns ≠ .valueTaskOf) (hbody : r.body ≠ .idle)
    (hphase : r.phase ≠ .inBody) (hok : invoke r.actual = .ok ()) : ∃ signal, r.body = .completed signal (.ok ()) := by
  have hover := h.bodyOver hb hreturns hbody hphase
  unfold BackgroundRun.bodyOver at hover
  unfold BackgroundRun.actual BackgroundRun.invoked invoke at hok
  cases hbd : r.body with
  | idle | running | pending => simp [hbd] at hover
  | threw signal ex => simp [hbd] at hok
  | completed signal ending =>
    refine ⟨signal, ?_⟩
    have hplain := hb.plain signal ending hbd
    rw [hbd] at hok
    cases hr : r.returns <;> simp_all [Awaitable.invoked, Awaitable.pends]

theorem Follows.awaited (h : Follows p r) (hb : Begun r) (hreturns : ¬ (r.returns = .valueTaskOf ∧ p.ReachesBody r.outcomes r.job)) :
    Awaited r := by
  have hawaited : r.body ≠ .idle → r.returns ≠ .valueTaskOf := fun hbody he => hreturns ⟨he, h.reached hbody⟩
  have hwaiting : ∀ run, .store run ∈ r.trace → r.phase = .inBody → run.state = .running := by
    intro run hmem hphase
    rw [h.inBody hphase, List.mem_append] at hmem
    exact stored_beforeBody (hmem.resolve_right (by simp))
  refine { stored := fun hbody run hmem hterminal => ?_, released := fun hbody hphase => ?_, succeeded := fun run hmem hstate => ?_ }
  · refine h.bodyOver hb (hawaited hbody) hbody fun hphase => ?_
    rw [hwaiting run hmem hphase] at hterminal
    cases hterminal
  · exact h.bodyOver hb (hawaited hbody) hbody (by rw [hphase]; nofun)
  · have hfull := h.begins.mem hmem
    have hreach : p.ReachesBody r.actual r.job := by
      by_contra hnot
      exact stored_unreached hb.created hnot hfull hstate
    have hbody : r.body ≠ .idle := by
      intro hidle
      have hpre := h.begins
      rw [execute_reaches hreach] at hpre
      have hrunning := stored_beforeBody ((prefix_before hpre (h.idle.1 hidle)).mem hmem)
      rw [hstate] at hrunning
      cases hrunning
    have hphase : r.phase ≠ .inBody := by
      intro hphase
      have hrunning := hwaiting run hmem hphase
      rw [hstate] at hrunning
      cases hrunning
    exact h.completed_of_ok hb (hawaited hbody) hbody hphase (stored_success hreach hfull hstate)

end Run

theorem begun_exec {p : Package} {es : List BackgroundEvent} {s : BackgroundNode}
    (h : exec (BackgroundNode.step p) .start es = some s) : ∀ (i : Nat) r, s.runs[i]? = some r → Begun r := by
  refine exec_inv (fun s => ∀ (i : Nat) r, s.runs[i]? = some r → Begun r) (fun s e s' hi hs i r hr => ?_) (fun i r hr => ?_) h
  · cases moved_of_step hs hr with
    | kept hold _ => exact hi i r hold
    | arrived => exact ⟨rfl, nofun, nofun⟩
    | @asked _ r hold =>
      have hb := hi i r hold
      exact ⟨hb.created, hb.pends, hb.plain⟩
    | @cancelled _ r hmem hold =>
      have hb := hi i r hold
      unfold BackgroundRun.requestCancel
      split
      · exact ⟨hb.created, hb.pends, hb.plain⟩
      · exact hb
    | acted hold ha => exact begun_act (hi i _ hold) ha
  · simp [BackgroundNode.start] at hr

/-! ## A body that nobody waits for -/

section Unawaited
variable {p : Package} {r r' : BackgroundRun} {stopping : Bool}

/-- The same execution, however far it has come. -/
structure SameRun (r r' : BackgroundRun) : Prop where
  job : r'.job = r.job
  returns : r'.returns = r.returns
  outcomes : r'.outcomes = r.outcomes
  created : r'.created = r.created

/-- Effects other than the invocation of the body, one after the other. -/
theorem exec_effects {before rest : List Effect} (hbefore : .invoked ∉ before) (hphase : r.phase = .executing (before ++ rest)) :
    ∃ r', exec (BackgroundRun.act p stopping) r (List.replicate before.length .effect) = some r' ∧
      r'.phase = .executing rest ∧ r'.body = r.body ∧ SameRun r r' := by
  induction before generalizing r with
  | nil => exact ⟨r, rfl, hphase, rfl, rfl, rfl, rfl, rfl⟩
  | cons e before ih =>
    rw [List.mem_cons, not_or] at hbefore
    have hact : r.act p stopping .effect = some (r.perform stopping e (before ++ rest)) := by
      unfold BackgroundRun.act
      rw [hphase]
      rfl
    have hnext : (r.perform stopping e (before ++ rest)).phase = .executing (before ++ rest) := if_neg (Ne.symm hbefore.1)
    have hbody : (r.perform stopping e (before ++ rest)).body = r.body := if_neg (Ne.symm hbefore.1)
    obtain ⟨r', hrun, hrest, hb, hsame⟩ := ih hbefore.2 hnext
    refine ⟨r', exec_cons_some.2 ⟨_, hact, hrun⟩, hrest, hb.trans hbody, hsame.job, hsame.returns, hsame.outcomes, hsame.created⟩

/-- A `ValueTask<T>`: the run is through and its slot released while the body is pending. -/
theorem exec_unawaited {job : JobDescriptor} {o : Outcomes} (created : JobRun) (hreach : p.ReachesBody o job) :
    ∃ acts r', exec (BackgroundRun.act p stopping) (.new job .valueTaskOf o created) acts = some r' ∧
      r'.phase = .released ∧ r'.body = .pending ∧ r'.job = job ∧ r'.returns = .valueTaskOf := by
  obtain ⟨r₁, hbegin, hphase₁, hidle₁, hsame₁⟩ : ∃ r₁, (BackgroundRun.new job .valueTaskOf o created).act p stopping .begin_ = some r₁ ∧
      r₁.phase = .executing (beforeBody o created ++ .invoked :: afterBody { o with invoke := .ok .value, timedOut := false } job created) ∧
      r₁.body = .idle ∧ SameRun (.new job .valueTaskOf o created) r₁ := by
    refine ⟨_, rfl, ?_, rfl, rfl, rfl, rfl, rfl⟩
    have hactual : p.ReachesBody { o with invoke := .ok .value, timedOut := false } job := reachesBody_actual.2 hreach
    exact congrArg RunPhase.executing (execute_reaches hactual)
  obtain ⟨r₂, hbefore, hphase₂, hidle₂, hsame₂⟩ := @exec_effects p r₁ stopping _ _ invoked_notMem_before hphase₁
  -- The body is invoked, returns, and is taken for complete.
  obtain ⟨r₃, hinvoke, hphase₃, hbody₃, hsame₃⟩ : ∃ r₃, r₂.act p stopping .effect = some r₃ ∧ r₃.phase = .inBody ∧
      r₃.body = .running ∧ SameRun r₂ r₃ := by
    refine ⟨r₂.perform stopping .invoked (afterBody { o with invoke := .ok .value, timedOut := false } job created), ?_,
      rfl, rfl, rfl, rfl, rfl, rfl⟩
    unfold BackgroundRun.act
    rw [hphase₂]
  have hreturns : r₃.returns = .valueTaskOf := hsame₃.returns.trans (hsame₂.returns.trans hsame₁.returns)
  have hpending : r₃.act p stopping .returns = some { r₃ with body := .pending } := by
    unfold BackgroundRun.act
    rw [hbody₃, hreturns]
    rfl
  have hreach₃ : p.ReachesBody r₃.outcomes r₃.job := by
    rw [hsame₃.outcomes, hsame₂.outcomes, hsame₁.outcomes, hsame₃.job, hsame₂.job, hsame₁.job]
    exact hreach
  obtain ⟨r₅, todo, hresume, hphase₅, htodo, hbody₅, hsame₅⟩ : ∃ r₅ todo,
      ({ r₃ with body := .pending } : BackgroundRun).act p stopping .resume = some r₅ ∧ r₅.phase = .executing (todo ++ []) ∧
      .invoked ∉ todo ∧ r₅.body = .pending ∧ SameRun r₃ r₅ := by
    have hinvoked : ({ r₃ with body := .pending } : BackgroundRun).invoked = some (.ok .value) := by
      unfold BackgroundRun.invoked
      rw [hreturns]
      rfl
    have hactual : p.ReachesBody { r₃.outcomes with invoke := .ok .value, timedOut := r₃.elapsed } r₃.job :=
      reachesBody_actual.2 hreach₃
    have htrace : ({ r₃ with body := .pending, timedOut := r₃.elapsed } : BackgroundRun).actual =
        { r₃.outcomes with invoke := .ok .value, timedOut := r₃.elapsed } := by
      unfold BackgroundRun.actual
      have hsame : ({ r₃ with body := .pending, timedOut := r₃.elapsed } : BackgroundRun).invoked = some (.ok .value) := hinvoked
      rw [hsame]
      rfl
    refine ⟨_, afterBody { r₃.outcomes with invoke := .ok .value, timedOut := r₃.elapsed } r₃.job r₃.created,
      if_pos ⟨hphase₃, by rw [hinvoked]; rfl⟩, ?_, invoked_notMem_after, rfl, rfl, rfl, rfl, rfl⟩
    dsimp only
    rw [htrace, execute_reaches hactual, dropWhile_invoked invoked_notMem_before, List.append_nil]
    rfl
  obtain ⟨r₆, hafter, hphase₆, hbody₆, hsame₆⟩ := @exec_effects p r₅ stopping _ _ htodo hphase₅
  have hends : r₆.act p stopping .ends = some { r₆ with phase := .ended } := if_pos hphase₆
  have hrelease : ({ r₆ with phase := .ended } : BackgroundRun).act p stopping .release = some { r₆ with phase := .released } := rfl
  refine ⟨.begin_ :: (List.replicate (beforeBody o created).length .effect ++
    (.effect :: .returns :: .resume :: (List.replicate todo.length .effect ++ [.ends, .release]))),
    { r₆ with phase := .released }, ?_, rfl, hbody₆.trans hbody₅, ?_, ?_⟩
  · rw [exec_cons, hbegin, Option.bind_some, exec_append, hbefore, Option.bind_some, exec_cons, hinvoke, Option.bind_some,
      exec_cons, hpending, Option.bind_some, exec_cons, hresume, Option.bind_some, exec_append, hafter, Option.bind_some,
      exec_cons, hends, Option.bind_some, exec_cons, hrelease]
    rfl
  · exact hsame₆.job.trans (hsame₅.job.trans (hsame₃.job.trans (hsame₂.job.trans hsame₁.job)))
  · exact hsame₆.returns.trans (hsame₅.returns.trans hreturns)

end Unawaited

/-- A node with one run does what the run does. -/
theorem exec_alone {p : Package} {s : BackgroundNode} {r r' : BackgroundRun} {acts : List RunAct} (hs : s.runs = [r])
    (h : exec (BackgroundRun.act p s.stopping) r acts = some r') :
    ∃ s', exec (BackgroundNode.step p) s (acts.map (.act 0)) = some s' ∧ s'.runs = [r'] := by
  induction acts generalizing s r with
  | nil =>
    cases h
    exact ⟨s, rfl, hs⟩
  | cons a acts ih =>
    obtain ⟨t, ht, hrest⟩ := exec_cons_some.1 h
    have hstep : s.step p (.act 0 a) = some { s with live := s.liveAfter 0 r a, runs := [t] } := by
      unfold BackgroundNode.step
      rw [hs]
      dsimp only [List.getElem?_cons_zero]
      rw [ht]
      rfl
    obtain ⟨s', hs', hruns⟩ := ih (s := { s with live := s.liveAfter 0 r a, runs := [t] }) rfl hrest
    exact ⟨s', exec_cons_some.2 ⟨_, hstep, hs'⟩, hruns⟩

/-- In every node, every execution of a job's method is finalised after its
body, exactly when the method does not return a `ValueTask<T>` (or its body is
never reached). -/
theorem awaited_iff (p : Package) (job : JobDescriptor) (returns : Awaitable) :
    (∀ (es : List BackgroundEvent) (s : BackgroundNode), exec (BackgroundNode.step p) .start es = some s →
      ∀ (i : Nat) r, s.runs[i]? = some r → r.job = job → r.returns = returns → Awaited r) ↔
      ¬ (returns = .valueTaskOf ∧ ∃ o, p.ReachesBody o job) := by
  constructor
  · rintro hall ⟨rfl, o, hreach⟩
    obtain ⟨acts, r, hacts, hphase, hbody, hjob, hreturns⟩ :=
      @exec_unawaited p false job o (createRun 0 0 job "Manual") hreach
    have harrive : BackgroundNode.step p .start (.arrive job .valueTaskOf o 0 "Manual") =
        some { BackgroundNode.start with runs := [.new job .valueTaskOf o (createRun 0 0 job "Manual")] } := rfl
    obtain ⟨s, hs, hruns⟩ := exec_alone (s := { BackgroundNode.start with
      runs := [.new job .valueTaskOf o (createRun 0 0 job "Manual")] }) rfl hacts
    have hawaited := hall _ s (exec_cons_some.2 ⟨_, harrive, hs⟩) 0 r (by rw [hruns]; rfl) hjob hreturns
    have hover := hawaited.released (by simp [hbody]) hphase
    unfold BackgroundRun.bodyOver at hover
    rw [hbody] at hover
    exact hover
  · intro hnot es s hrun i r hr hjob hreturns
    refine (follows_exec hrun i r hr).awaited (begun_exec hrun i r hr) fun hbad => hnot ⟨hreturns ▸ hbad.1, r.outcomes, ?_⟩
    exact hjob ▸ hbad.2

/-- A method that returns a `ValueTask<int>` and is still running when its run is over. -/
def stillRunning : List BackgroundEvent :=
  alone .valueTaskOf quietOutcomes (toBody ++ [.returns, .resume] ++ List.replicate 6 .effect ++ [.ends, .release])

theorem released_while_running :
    ¬ ∀ (p : Package) (es : List BackgroundEvent) (s : BackgroundNode), exec (BackgroundNode.step p) .start es = some s →
      ∀ (i : Nat) r, s.runs[i]? = some r → Awaited r := by
  intro h
  obtain ⟨s, hs, r, hr, hphase, hbody⟩ : ∃ s, exec (BackgroundNode.step .core) .start stillRunning = some s ∧
      ∃ r, s.runs[0]? = some r ∧ r.phase = .released ∧ r.body = .pending :=
    ⟨_, rfl, _, rfl, rfl, rfl⟩
  have hover := (h .core _ s hs 0 r hr).released (by simp [hbody]) hphase
  unfold BackgroundRun.bodyOver at hover
  rw [hbody] at hover
  exact hover

end DuckRun.Executors
