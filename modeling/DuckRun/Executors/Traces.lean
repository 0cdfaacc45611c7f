import DuckRun.Executors.BackgroundRuns
/-!
# What a run in the background does

However the acts of a run fall between those of others, what it has done and
has to do is the trace of one execution (`Follows`), the one that meets what
this run met.
-/

namespace DuckRun.Executors

open DuckRun.Lib DuckRun.Runtime DuckRun.Runtime.JobExecutor

/-- The run after these effects. -/
def lastAssigned (run : JobRun) : List Effect → JobRun
  | [] => run
  | .assign run' :: trace => lastAssigned run' trace
  | _ :: trace => lastAssigned run trace

theorem lastAssigned_append (run : JobRun) (before after : List Effect) :
    lastAssigned run (before ++ after) = lastAssigned (lastAssigned run before) after := by
  induction before generalizing run with
  | nil => rfl
  | cons e before ih => cases e <;> exact ih _

theorem lastAssigned_closing (o : Outcomes) (k : Nat) (before last : JobRun) :
    lastAssigned before (closing o k last) = finish (o.clock k) last := by
  unfold closing writes
  cases o.updateThrows k <;> rfl

structure Follows (p : Package) (r : BackgroundRun) : Prop where
  run : r.run = lastAssigned r.created r.trace
  idle : r.body = .idle ↔ .invoked ∉ r.trace
  queued : r.phase = .queued → r.trace = []
  executing : ∀ todo, r.phase = .executing todo → r.trace ++ todo = (p.execute r.actual r.job r.created).2
  reached : r.body ≠ .idle → p.ReachesBody r.outcomes r.job
  inBody : r.phase = .inBody → r.trace = beforeBody r.outcomes r.created ++ [.invoked]
  goneOn : r.body ≠ .idle → r.phase ≠ .inBody → r.invoked.isSome = true
  whole : r.phase = .ended ∨ r.phase = .released → r.trace = (p.execute r.actual r.job r.created).2

section Follows
variable {p : Package} {r r' : BackgroundRun} {stopping : Bool}

theorem follows_new (p : Package) (job : JobDescriptor) (returns : Awaitable) (outcomes : Outcomes) (created : JobRun) :
    Follows p (.new job returns outcomes created) where
  run := rfl
  idle := by simp [BackgroundRun.new]
  queued _ := rfl
  executing _ h := by cases h
  reached h := absurd rfl h
  inBody h := by cases h
  goneOn h := absurd rfl h
  whole h := by rcases h with h | h <;> cases h

/-- Flags do not touch the execution. -/
theorem Follows.flags (h : Follows p r) (signal : Option Cause) (elapsed idReturned asked : Bool) :
    Follows p { r with signal, elapsed, idReturned, asked } :=
  ⟨h.run, h.idle, h.queued, h.executing, h.reached, h.inBody, h.goneOn, h.whole⟩

theorem Follows.ask (h : Follows p r) : Follows p r.ask := h.flags r.signal r.elapsed r.idReturned _

theorem Follows.requestCancel (h : Follows p r) : Follows p r.requestCancel := by
  unfold BackgroundRun.requestCancel
  split
  · exact h.flags _ r.elapsed r.idReturned r.asked
  · exact h

/-- A run that comes to its body has done just what is before it. -/
theorem Follows.reaches (h : Follows p r) {todo : List Effect} (hphase : r.phase = .executing (.invoked :: todo)) :
    p.ReachesBody r.outcomes r.job ∧ r.trace = beforeBody r.outcomes r.created := by
  have hfull := h.executing _ hphase
  have hmem : .invoked ∈ (p.execute r.actual r.job r.created).2 := by
    rw [← hfull]
    simp
  have hreach := invoked_mem_iff.1 hmem
  rw [execute_reaches hreach] at hfull
  obtain ⟨htrace, -, -⟩ := (List.append_cons_inj_of_notMem invoked_notMem_before invoked_notMem_after).1 hfull.symm
  exact ⟨reachesBody_actual.1 hreach, htrace.symm⟩

theorem follows_effect (h : Follows p r) {e : Effect} {todo : List Effect} (hphase : r.phase = .executing (e :: todo)) :
    Follows p (r.perform stopping e todo) := by
  have hrun : (r.perform stopping e todo).run = lastAssigned r.created (r.trace ++ [e]) := by
    rw [lastAssigned_append, ← h.run]
    cases e <;> rfl
  have hfull := h.executing _ hphase
  by_cases he : e = .invoked
  · subst he
    obtain ⟨hreach, htrace⟩ := h.reaches hphase
    have hin : (r.perform stopping .invoked todo).phase = .inBody := rfl
    refine ⟨hrun, ?_, fun hq => ?_, fun t ht => ?_, fun _ => hreach, fun _ => ?_, fun _ hne => absurd hin hne, fun ho => ?_⟩
    · simp [BackgroundRun.perform]
    · rw [hin] at hq
      cases hq
    · rw [hin] at ht
      cases ht
    · show r.trace ++ [.invoked] = _
      rw [htrace]
      rfl
    · rw [hin] at ho
      rcases ho with ho | ho <;> cases ho
  · have hnext : (r.perform stopping e todo).phase = .executing todo := if_neg he
    have hbody : (r.perform stopping e todo).body = r.body := if_neg he
    have hactual : (r.perform stopping e todo).actual = r.actual := by
      unfold BackgroundRun.actual BackgroundRun.invoked
      rw [hbody]
      rfl
    refine ⟨hrun, ?_, fun hq => ?_, fun t ht => ?_, fun hb => h.reached (hbody ▸ hb), fun hi => ?_, fun hb _ => ?_, fun ho => ?_⟩
    · rw [hbody, h.idle]
      show _ ↔ .invoked ∉ r.trace ++ [e]
      simp [Ne.symm he]
    · rw [hnext] at hq
      cases hq
    · rw [hnext] at ht
      cases ht
      rw [hactual]
      show (r.trace ++ [e]) ++ todo = _
      rw [List.append_assoc]
      exact hfull
    · rw [hnext] at hi
      cases hi
    · have hgone := h.goneOn (hbody ▸ hb) (by rw [hphase]; nofun)
      unfold BackgroundRun.invoked at hgone ⊢
      rw [hbody]
      exact hgone
    · rw [hnext] at ho
      rcases ho with ho | ho <;> cases ho

/-- While the body runs, nothing but the body goes on. -/
theorem Follows.running (h : Follows p r) (hb : r.body = .running) : r.phase = .inBody := by
  by_contra hne
  have hgone := h.goneOn (by simp [hb]) hne
  simp [BackgroundRun.invoked, hb] at hgone

/-- The body goes on while `ContinueRunAsync` waits for it. -/
theorem Follows.inBody_step (h : Follows p r) (hphase : r.phase = .inBody) {body : Body} (hne : body ≠ .idle) :
    Follows p { r with body } := by
  have hidle : r.body ≠ .idle := by
    rw [ne_eq, h.idle, h.inBody hphase]
    simp
  refine ⟨h.run, ?_, h.queued, fun t ht => ?_, fun _ => h.reached hidle, h.inBody, fun _ hp => absurd hphase hp, fun ho => ?_⟩
  · exact iff_of_false hne fun hmem => hidle (h.idle.2 hmem)
  · rw [hphase] at ht
    cases ht
  · rw [hphase] at ho
    rcases ho with ho | ho <;> cases ho

/-- An awaitable that nobody waits for completes. -/
theorem Follows.completes (h : Follows p r) (hb : r.body = .pending) (hphase : r.phase ≠ .inBody)
    (signal : Option Cause) (ending : Except Exn Unit) : Follows p { r with body := .completed signal ending } := by
  have hgone := h.goneOn (by simp [hb]) hphase
  have hnot : r.returns.awaited = false := by
    by_contra hawaited
    simp [BackgroundRun.invoked, hb, hawaited] at hgone
  have hvalue : r.returns.invoked ending = .value := by
    cases hr : r.returns <;> first | rfl | simp [hr, Awaitable.awaited] at hnot
  have hactual : ({ r with body := .completed signal ending } : BackgroundRun).actual = r.actual := by
    unfold BackgroundRun.actual BackgroundRun.invoked
    simp [hb, hnot, hvalue]
  refine ⟨h.run, ?_, h.queued, fun t ht => ?_, fun _ => h.reached (by simp [hb]), fun hp => absurd hp hphase, fun _ _ => rfl,
    fun ho => ?_⟩
  · exact iff_of_false nofun fun hmem => by simp [h.idle.2 hmem] at hb
  · rw [hactual]
    exact h.executing t ht
  · rw [hactual]
    exact h.whole ho

theorem dropWhile_invoked {before after : List Effect} (h : .invoked ∉ before) :
    (before ++ .invoked :: after).dropWhile (· ≠ .invoked) = .invoked :: after := by
  rw [List.dropWhile_append_of_pos]
  · simp
  · intro e he
    have hne : e ≠ .invoked := fun hi => h (hi ▸ he)
    simpa using hne

theorem follows_resume (h : Follows p r) (hphase : r.phase = .inBody) (hinv : r.invoked.isSome = true) (timedOut : Bool) :
    let now : BackgroundRun := { r with timedOut }
    Follows p { now with phase := .executing ((p.execute now.actual r.job r.created).2.dropWhile (· ≠ .invoked)).tail } := by
  intro now
  have hidle : r.body ≠ .idle := by
    rw [ne_eq, h.idle, h.inBody hphase]
    simp
  have hreach : p.ReachesBody now.actual r.job := reachesBody_actual.2 (h.reached hidle)
  refine ⟨h.run, h.idle, nofun, fun t ht => ?_, fun _ => h.reached hidle, nofun, fun _ _ => hinv, fun ho => ?_⟩
  · cases ht
    show r.trace ++ _ = (p.execute now.actual r.job r.created).2
    rw [execute_reaches hreach, dropWhile_invoked invoked_notMem_before, h.inBody hphase, List.append_assoc]
    rfl
  · rcases ho with ho | ho <;> cases ho

theorem follows_act {a : RunAct} (h : Follows p r) (ha : r.act p stopping a = some r') : Follows p r' := by
  cases a with
  | begin_ =>
    simp only [BackgroundRun.act] at ha
    split at ha <;> cases ha
    rename_i hq
    have htrace := h.queued hq
    have hidle : r.body = .idle := by
      rw [h.idle, htrace]
      exact List.not_mem_nil
    refine ⟨h.run, h.idle, nofun, fun t ht => ?_, fun hb => absurd hidle hb, nofun, fun hb => absurd hidle hb, fun ho => ?_⟩
    · cases ht
      rw [htrace]
      rfl
    · rcases ho with ho | ho <;> cases ho
  | effect =>
    simp only [BackgroundRun.act] at ha
    split at ha <;> cases ha
    exact follows_effect h ‹_›
  | throws ex =>
    simp only [BackgroundRun.act] at ha
    split at ha <;> cases ha
    exact h.inBody_step (h.running ‹_›) nofun
  | returns =>
    simp only [BackgroundRun.act] at ha
    split at ha <;> cases ha
    refine h.inBody_step (h.running ‹_›) ?_
    split <;> nofun
  | completes ending =>
    simp only [BackgroundRun.act] at ha
    split at ha <;> cases ha
    rename_i hb
    by_cases hphase : r.phase = .inBody
    · exact h.inBody_step hphase nofun
    · exact h.completes hb hphase r.signal ending
  | resume =>
    simp only [BackgroundRun.act] at ha
    split at ha <;> cases ha
    rename_i hwait
    exact follows_resume h hwait.1 hwait.2 r.elapsed
  | elapse =>
    simp only [BackgroundRun.act] at ha
    split at ha <;> cases ha
    exact h.flags _ true r.idReturned r.asked
  | stopSignals =>
    simp only [BackgroundRun.act] at ha
    split at ha <;> cases ha
    exact h.flags _ r.elapsed r.idReturned r.asked
  | idReturned =>
    simp only [BackgroundRun.act] at ha
    split at ha <;> cases ha
    exact h.flags r.signal r.elapsed true r.asked
  | ends =>
    simp only [BackgroundRun.act] at ha
    split at ha <;> cases ha
    rename_i hphase
    have hfull := h.executing [] hphase
    rw [List.append_nil] at hfull
    exact ⟨h.run, h.idle, nofun, nofun, h.reached, nofun, fun hb _ => h.goneOn hb (by rw [hphase]; nofun), fun _ => hfull⟩
  | release =>
    simp only [BackgroundRun.act] at ha
    split at ha <;> cases ha
    rename_i hphase
    exact ⟨h.run, h.idle, nofun, nofun, h.reached, nofun, fun hb _ => h.goneOn hb (by rw [hphase]; nofun),
      fun _ => h.whole (.inl hphase)⟩

/-- What a run has done is the beginning of its execution. -/
theorem Follows.begins (h : Follows p r) : r.trace <+: (p.execute r.actual r.job r.created).2 := by
  cases hphase : r.phase with
  | queued =>
    rw [h.queued hphase]
    exact List.nil_prefix
  | executing todo => exact ⟨todo, h.executing todo hphase⟩
  | inBody =>
    have hidle : r.body ≠ .idle := by
      rw [ne_eq, h.idle, h.inBody hphase]
      simp
    have hreach : p.ReachesBody r.actual r.job := reachesBody_actual.2 (h.reached hidle)
    rw [h.inBody hphase, execute_reaches hreach]
    exact ⟨_, List.append_assoc _ _ _⟩
  | ended | released =>
    have htrace := h.whole (by simp [hphase])
    exact htrace ▸ List.prefix_refl _

/-- Only an effect adds to the trace. -/
theorem BackgroundRun.act_cases {a : RunAct} (h : r.act p stopping a = some r') :
    (∃ e todo, a = .effect ∧ r.phase = .executing (e :: todo) ∧ r' = r.perform stopping e todo) ∨
      (a ≠ .effect ∧ r'.trace = r.trace) := by
  cases a with
  | effect =>
    simp only [BackgroundRun.act] at h
    split at h <;> cases h
    exact .inl ⟨_, _, rfl, ‹_›, rfl⟩
  | begin_ | throws | returns | completes | resume | elapse | stopSignals | idReturned | ends | release =>
    simp only [BackgroundRun.act] at h
    split at h <;> cases h
    exact .inr ⟨by simp, rfl⟩

end Follows

/-! ## All the runs of a node -/

section Node
variable {p : Package} {s s' : BackgroundNode}

/-- The run an event is about. -/
def BackgroundEvent.place : BackgroundEvent → Option Nat
  | .lookup id | .cancel id | .act id _ => some id
  | .arrive .. | .stop => none

/-- What a step leaves at a place of the pool. -/
inductive Moved (p : Package) (s : BackgroundNode) : BackgroundEvent → Nat → BackgroundRun → Prop where
  | kept {e i r} : s.runs[i]? = some r → e.place ≠ some i → Moved p s e i r
  | arrived {job returns outcomes createdAt triggerSource} : Moved p s (.arrive job returns outcomes createdAt triggerSource)
      s.runs.length (.new job returns outcomes (createRun s.runs.length createdAt job triggerSource))
  | asked {i r} : s.runs[i]? = some r → Moved p s (.lookup i) i r.ask
  | cancelled {i r} : i ∈ s.cancels → s.runs[i]? = some r → Moved p s (.cancel i) i r.requestCancel
  | acted {i r r' a} : s.runs[i]? = some r → r.act p s.stopping a = some r' → Moved p s (.act i a) i r'

theorem moved_of_step {e : BackgroundEvent} {i : Nat} {r : BackgroundRun} (h : s.step p e = some s')
    (hr : s'.runs[i]? = some r) : Moved p s e i r := by
  cases e with
  | arrive job returns outcomes createdAt triggerSource =>
    cases h
    rcases getElem?_snoc_cases hr with ⟨rfl, rfl⟩ | hold
    · exact .arrived
    · exact .kept hold nofun
  | stop =>
    cases h
    exact .kept hr nofun
  | lookup id =>
    cases h
    rcases getElem?_modify_cases hr with ⟨rfl, r, hold, rfl⟩ | ⟨hne, hold⟩
    · exact .asked hold
    · exact .kept hold fun he => hne (Option.some.inj he).symm
  | cancel id =>
    simp only [BackgroundNode.step] at h
    split at h <;> cases h
    rename_i hmem
    rcases getElem?_modify_cases hr with ⟨rfl, r, hold, rfl⟩ | ⟨hne, hold⟩
    · exact .cancelled hmem hold
    · exact .kept hold fun he => hne (Option.some.inj he).symm
  | act id a =>
    simp only [BackgroundNode.step] at h
    split at h
    · rename_i r₀ hr₀
      obtain ⟨r', ha, rfl⟩ := Option.map_eq_some_iff.1 h
      rcases getElem?_set_cases hr with ⟨rfl, rfl⟩ | ⟨hne, hold⟩
      · exact .acted hr₀ ha
      · exact .kept hold fun he => hne (Option.some.inj he).symm
    · cases h

theorem follows_step {e : BackgroundEvent} (hi : ∀ (i : Nat) r, s.runs[i]? = some r → Follows p r) (h : s.step p e = some s') :
    ∀ (i : Nat) r, s'.runs[i]? = some r → Follows p r := by
  intro i r hr
  cases moved_of_step h hr with
  | kept hold _ => exact hi i r hold
  | arrived => exact follows_new p _ _ _ _
  | asked hold => exact (hi i _ hold).ask
  | cancelled _ hold => exact (hi i _ hold).requestCancel
  | acted hold ha => exact follows_act (hi i _ hold) ha

/-- In every node, every run does what its execution does. -/
theorem follows_exec {es : List BackgroundEvent} (h : exec (BackgroundNode.step p) .start es = some s) :
    ∀ (i : Nat) r, s.runs[i]? = some r → Follows p r :=
  exec_inv (fun s => ∀ (i : Nat) r, s.runs[i]? = some r → Follows p r) (fun _ _ _ hi hs => follows_step hi hs)
    (fun i r hr => by simp [BackgroundNode.start] at hr) h

end Node

/-! ## One run by itself -/

/-- A node with one run, of a static method that takes the token. -/
def alone (returns : Awaitable) (outcomes : Outcomes) (acts : List RunAct) : List BackgroundEvent :=
  .arrive (describe nightlyJob "Jobs" needsToken) returns outcomes 0 "Manual" :: acts.map (.act 0)

/-- Up to the invocation of the body. -/
def toBody : List RunAct := .begin_ :: List.replicate 6 .effect

end DuckRun.Executors
