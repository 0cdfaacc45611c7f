import DuckRun.Runtime.SlotInvariants
import DuckRun.Runtime.RunStates
import Mathlib.Data.List.Nodup
/-!
# Running jobs and their slots

On a node with any number of operations under way, in any order of their
steps, a job never has more runs in state Running than its `MaxConcurrency`:
a run is Running only while its thread executes (`Thread.RunOk`), and a thread
that executes holds a slot (`Thread.Ok`).
-/

namespace DuckRun.Runtime

open DuckRun.Lib JobExecutor

/-! ## The state of a run -/

/-- The rest of an execution leaves the run in a state other than Running. -/
def Settles (rest : List Effect) (v : RunView) : Prop := (rest.foldl RunView.perform v).running = false

theorem settles_finishing {now : Instant} {run : JobRun} (h : run.state ≠ .running) (v : RunView) :
    Settles (finishing now run) v := by
  simp [Settles, finishing, RunView.perform, RunView.running, finish, h]

theorem settles_append {es fs : List Effect} (h : ∀ v, Settles fs v) (v : RunView) : Settles (es ++ fs) v := by
  unfold Settles
  rw [List.foldl_append]
  exact h _

/-- With a store that works, no way through `ContinueRunAsync` leaves its run Running. -/
theorem execute_settles {o : Outcomes} (hs : Outcomes.Stores o) (job : JobDescriptor) {run : JobRun}
    (hrun : run.state ≠ .running) {v : RunView} (hv : v.running = false) : Settles (execute o job run).2 v := by
  by_cases hearly : o.consoleThrows = none ∧ acceptsTimeout job = true
  · obtain ⟨hc, ht⟩ := hearly
    by_cases hx : Constructs o job
    · cases ha : buildArguments o job with
      | error ex =>
        rw [execute_argumentsFail hs hc ht hx ha]
        exact settles_append (settles_finishing hrun) v
      | ok u =>
        rw [execute_runs hs hc ht hx ha]
        have hend : (bodyResult o job (started (o.clock 0) run)).state ≠ .running := by
          intro he
          have hterm := bodyResult_terminal o job (started (o.clock 0) run)
          rw [he] at hterm
          cases hterm
        exact settles_append (settles_finishing hend) v
    · have hi : job.method.isStatic = false := by simpa using fun h => hx (.inl h)
      cases hthrows : o.constructThrows with
      | none => exact absurd (.inr hthrows) hx
      | some ex =>
        rw [execute_constructFails hs hc ht hi hthrows]
        exact settles_append (settles_finishing (by simp [constructFailure])) v
  · obtain ⟨ex, trace, hex, hpre⟩ := @execute_early o job run hearly
    rw [hex]
    rcases List.prefix_cons_iff.1 hpre with rfl | ⟨t, rfl, ht⟩
    · exact hv
    · rw [List.prefix_nil.1 ht]
      exact hv

/-- Only an execution has a run in state Running, and it will not leave it so. -/
def Thread.RunOk (t : Thread) : Prop :=
  match t.phase with
  | .executing rest => ∀ v ∈ t.run, Settles rest v
  | _ => t.isRunning = false

/-- The updates of an execution that begins do not throw. -/
def NodeEvent.UpdatesWork : NodeEvent → Prop
  | .act _ (.begin_ _ _ o) => Outcomes.Stores o
  | _ => True

theorem Thread.runOk_idle {t t' : Thread} (hrun : t'.run = t.run) (hp : ∀ rest, t'.phase ≠ .executing rest)
    (h : t.isRunning = false) : t'.RunOk := by
  have hidle : t'.isRunning = false := by
    unfold Thread.isRunning at h ⊢
    rw [hrun]
    exact h
  unfold Thread.RunOk
  split
  · rename_i rest he
    exact absurd he (hp rest)
  · exact hidle

/-- A step of the body. -/
theorem Thread.runOk_body {t t' : Thread} {i : Nat} {a : Act} (hok : t.RunOk) (hw : (NodeEvent.act i a).UpdatesWork)
    (h : t.BodyStep a t') : t'.RunOk := by
  unfold Thread.RunOk at hok
  cases h with
  | created hp | createdInBody hp => exact rfl
  | createThrew hp | createThrewInBody hp | enqueued hp | cancelled hp =>
    rw [hp] at hok
    exact runOk_idle rfl (by rintro rest ⟨⟩) hok
  | started hp =>
    rw [hp] at hok
    refine runOk_idle rfl (fun rest => ?_) hok
    dsimp only
    cases t.source <;> rintro ⟨⟩
  | begun hp =>
    rw [hp] at hok
    intro v hv
    have hidle : v.running = false := by
      unfold Thread.isRunning at hok
      rw [Option.mem_def.1 hv] at hok
      exact hok
    exact execute_settles hw t.job (by rintro ⟨⟩) hidle
  | performed hp =>
    rw [hp] at hok
    intro v hv
    obtain ⟨w, hw, rfl⟩ := Option.map_eq_some_iff.1 hv
    exact hok w hw
  | ended hp =>
    rw [hp] at hok
    have hidle : t.isRunning = false := by
      unfold Thread.isRunning
      cases hr : t.run with
      | none => rfl
      | some v => exact hok v hr
    exact runOk_idle rfl (by rintro rest ⟨⟩) hidle

theorem Thread.runOk_step {tr tr' : ConcurrencyTracker} {t t' : Thread} {i : Nat} {a : Act} (hok : t.RunOk)
    (hw : (NodeEvent.act i a).UpdatesWork) (h : t.step tr a = some (tr', t')) : t'.RunOk := by
  cases step_cases h with
  | body hb => exact runOk_body hok hw hb
  | won hp =>
    unfold Thread.RunOk at hok
    rw [hp] at hok
    refine runOk_idle rfl (fun rest => ?_) hok
    dsimp only
    split <;> rintro ⟨⟩
  | full hp | free hp | lost hp | granted hp | refused hp | rolledBack hp | disposed hp | released hp =>
    unfold Thread.RunOk at hok
    rw [hp] at hok
    exact runOk_idle rfl (by rintro rest ⟨⟩) hok

theorem runOk_node {fold : String → String} {registry : List JobDescriptor} {n n' : Node} {e : NodeEvent}
    (hi : ∀ t ∈ n.threads, t.RunOk) (hw : e.UpdatesWork) (h : n.step fold registry e = some n') :
    ∀ t ∈ n'.threads, t.RunOk := by
  have harrive : ∀ job source, ∀ t ∈ n.threads ++ [Thread.new job source], t.RunOk := by
    intro job source t ht
    rcases List.mem_append.1 ht with ht | ht
    · exact hi t ht
    · rw [List.mem_singleton.1 ht]
      exact rfl
  cases e with
  | fire job =>
    simp only [Node.step] at h
    split at h <;> cases h
    exact harrive job .cron
  | trigger jobName =>
    simp only [Node.step] at h
    split at h
    · cases h
      exact hi
    · split at h <;> cases h
      · exact harrive _ .manual
      · exact hi
  | act i a =>
    obtain ⟨t, tr, t', ht, hs, rfl⟩ := Node.act_cases h
    intro x hx
    rcases List.mem_or_eq_of_mem_set hx with hx | rfl
    · exact hi x hx
    · exact Thread.runOk_step (hi t (List.mem_of_getElem? ht)) hw hs

/-- A run in state Running is one of an execution, so its slot is held. -/
theorem Thread.running_holds {t : Thread} {max : Int} (hok : t.Ok max) (hrun : t.RunOk) (h : t.isRunning = true) :
    t.holdsLocal = true ∧ t.holdsRemote = t.job.finite := by
  unfold Thread.RunOk at hrun
  split at hrun
  · rename_i rest hp
    have hl := hok.held
    have hr := hok.remote
    rw [hp] at hl hr
    exact ⟨hl, hr⟩
  · rw [h] at hrun
    cases hrun

theorem names_inj {fold : String → String} {registry : List JobDescriptor}
    (hnames : (registry.map fun job => fold job.name).Nodup) :
    ∀ a ∈ registry, ∀ b ∈ registry, fold a.name = fold b.name → a = b :=
  fun _ ha _ hb h => List.inj_on_of_nodup_map hnames ha hb h

/-- At every moment of every interleaving, at most `MaxConcurrency` runs of a
job are Running, and each of them owns a slot that is not released yet: one
the job's tracker counts, and one of the coordinator's if the cap is finite. -/
theorem running_le_maxConcurrency (fold : String → String) (registry : List JobDescriptor)
    (hnames : (registry.map fun job => fold job.name).Nodup) (hmax : ∀ job ∈ registry, 1 ≤ job.maxConcurrency)
    (es : List NodeEvent) (hstore : ∀ e ∈ es, e.UpdatesWork) (n : Node)
    (hrun : exec (Node.step fold registry) Node.empty es = some n) :
    ∀ job ∈ registry,
      ((n.threads.countP fun t => t.job = job && t.isRunning : Nat) : Int) ≤ job.maxConcurrency ∧
        (n.getTracker fold job).current = n.threads.countP (Thread.counts job) ∧
          ∀ t ∈ n.threads, t.job = job → t.isRunning = true →
            t.counts job = true ∧ t.holdsRemote = job.finite := by
  have hi := nodeInv_exec (names_inj hnames) hrun
  have hruns : ∀ t ∈ n.threads, t.RunOk :=
    exec_inv_along (fun _ e => e.UpdatesWork) (fun n => ∀ t ∈ n.threads, t.RunOk)
      (fun _ _ _ hi hw hs => runOk_node hi hw hs) (by simp [Node.empty]) (along_of_forall hstore) hrun
  intro job hjob
  have hown : ∀ t ∈ n.threads, t.job = job → t.isRunning = true → t.counts job = true ∧ t.holdsRemote = job.finite := by
    rintro t ht rfl hr
    obtain ⟨hl, hrem⟩ := Thread.running_holds (hi.ok t ht) (hruns t ht) hr
    exact ⟨by simp [Thread.counts, hl], hrem⟩
  refine ⟨?_, hi.count job hjob, hown⟩
  have hle : (n.threads.countP fun t => t.job = job && t.isRunning) ≤ n.threads.countP (Thread.counts job) := by
    refine List.countP_mono_left fun t ht h => ?_
    simp only [Bool.and_eq_true, decide_eq_true_eq] at h
    exact (hown t ht h.1 h.2).1
  have hcap : job.cap = job.maxConcurrency := by
    have := hmax job hjob
    unfold JobDescriptor.cap ConcurrencyTracker.new
    dsimp only
    rw [if_neg (by omega)]
  have hcount := hi.count job hjob
  have hbound := hi.bound job hjob
  omega

def nightly : JobDescriptor := describe nightlyJob "Jobs" needsToken

/-- A cron fire of the nightly job, up to the moment its run is Running. -/
def fireNightly : List NodeEvent :=
  [.fire nightly, .act 0 .read, .act 0 .swap, .act 0 (.coordinator .granted), .act 0 .enqueue, .act 0 .start,
    .act 0 (.create true), .act 0 (.begin_ 7 0 quietOutcomes), .act 0 .effect, .act 0 .effect, .act 0 .effect]

theorem running_le_nightly :
    ∃ n, exec (Node.step id [nightly]) Node.empty fireNightly = some n ∧
      n.threads.countP (fun t => t.job = nightly && t.isRunning) = 1 ∧ ∀ job ∈ [nightly],
        ((n.threads.countP fun t => t.job = job && t.isRunning : Nat) : Int) ≤ job.maxConcurrency ∧
          (n.getTracker id job).current = n.threads.countP (Thread.counts job) ∧
            ∀ t ∈ n.threads, t.job = job → t.isRunning = true →
              t.counts job = true ∧ t.holdsRemote = job.finite := by
  refine ⟨_, rfl, rfl, ?_⟩
  refine running_le_maxConcurrency id [nightly] (by decide) (by decide) fireNightly ?_ _ rfl
  intro e he
  simp only [fireNightly, List.mem_cons, List.not_mem_nil, or_false] at he
  rcases he with rfl | rfl | rfl | rfl | rfl | rfl | rfl | rfl | rfl | rfl | rfl <;> first | trivial | exact fun _ => rfl

end DuckRun.Runtime
