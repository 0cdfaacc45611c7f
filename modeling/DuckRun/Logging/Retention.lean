import DuckRun.Logging.InMemoryConsoleStore
import DuckRun.Runtime.RunHistory
import DuckRun.Runtime.Scheduler
/-!
# Consoles of the runs in the history

`AddDuckRun` gives the console store room for as many runs as all histories
together hold. But a history drops the oldest run of one job and the console
store the oldest of all: a job that seldom runs loses the consoles of runs that
its history still lists, when other jobs log often enough.
-/

namespace DuckRun.Logging

open DuckRun.Lib DuckRun.Runtime

/-- The sizes; the builder accepts none below one. -/
structure DuckRunOptions where
  consoleEntriesPerRun : Nat
  runsRetainedPerJob : Nat
  oneEntry : 1 ≤ consoleEntriesPerRun
  oneRun : 1 ≤ runsRetainedPerJob

variable {fold : String → String}

/-- `maxRuns` of the console store. -/
def DuckRunOptions.maxRuns (options : DuckRunOptions) (registry : JobRegistry fold) : Int :=
  max 1000 (options.runsRetainedPerJob * max 1 registry.all.length)

/-- The two stores, and what was logged, the newest in front. -/
structure Stores where
  history : RunHistory
  console : InMemoryConsoleStore
  log : List ConsoleLogEntry

inductive StoresEvent where
  | store (call : StoreCall)
  | log (entry : ConsoleLogEntry)
  deriving DecidableEq, Repr

def Stores.start : Stores := ⟨.empty, .new, []⟩

section Machine
variable (options : DuckRunOptions) (registry : JobRegistry fold)

/-- Runs are of registered jobs, and a run logs after it was added. -/
def Stores.step (s : Stores) : StoresEvent → Option Stores
  | .store call =>
    if ∃ job ∈ registry.all, call.run.jobName = job.name then
      (s.history.step fold options.runsRetainedPerJob call).map fun history => { s with history }
    else none
  | .log entry =>
    if entry.runId ∈ (added s.history.calls).map JobRun.id then
      some { s with
        console := s.console.append options.consoleEntriesPerRun (options.maxRuns registry) entry
        log := entry :: s.log }
    else none

/-- The entries a run logged, in order. -/
def logged (runId : Nat) (log : List ConsoleLogEntry) : List ConsoleLogEntry := (log.filter fun entry => entry.runId = runId).reverse

/-- Every run that the history returns has its last lines. -/
def ConsolesKept (fold : String → String) (s : Stores) : Prop :=
  ∀ jobName take, ∀ run ∈ s.history.store.getRecentForJobAsync fold jobName take,
    s.console.getForRunAsync run.id = (logged run.id s.log).rtake options.consoleEntriesPerRun

/-- A line that makes a new console pushes out only the console of a run that no history lists. -/
def PushesOutUnlisted (s : Stores) (e : StoresEvent) : Prop :=
  ∀ entry, e = .log entry → s.console.byRun entry.runId = none →
    ∀ id ∈ pushedOut (runCap (options.maxRuns registry)) entry.runId s.console.order, ∀ key, id ∉ s.history.store.list key

end Machine

/-! ## What a run logged -/

section Logged
variable {maxRuns : Int} {log : List ConsoleLogEntry} {id : Nat}

theorem logged_cons (entry : ConsoleLogEntry) :
    logged id (entry :: log) = if entry.runId = id then logged id log ++ [entry] else logged id log := by
  unfold logged
  rw [List.filter_cons]
  simp only [decide_eq_true_eq]
  split
  · rw [List.reverse_cons]
  · rfl

theorem logged_eq_nil : logged id log = [] ↔ ∀ entry ∈ log, entry.runId ≠ id := by
  unfold logged
  rw [List.reverse_eq_nil_iff, List.filter_eq_nil_iff]
  simp

theorem logged_of_created (h : id ∈ createdRuns maxRuns log) : logged id log ≠ [] := by
  rw [ne_eq, logged_eq_nil]
  intro hnone
  induction log with
  | nil => cases h
  | cons entry log ih =>
    have hrest := fun hmem => ih hmem fun e he => hnone e (List.mem_cons_of_mem _ he)
    rw [createdRuns] at h
    split at h
    · exact hrest h
    · rcases List.mem_cons.1 h with rfl | hmem
      · exact hnone entry List.mem_cons_self rfl
      · exact hrest hmem

theorem sinceCreated_eq_nil (h : ∀ entry ∈ log, entry.runId ≠ id) : sinceCreated maxRuns id log = [] := by
  induction log with
  | nil => rfl
  | cons entry log ih =>
    rw [sinceCreated, if_neg (h entry List.mem_cons_self)]
    exact ih fun e he => h e (List.mem_cons_of_mem _ he)

end Logged

theorem order_replay (maxPerRun : Nat) (maxRuns : Int) (log : List ConsoleLogEntry) :
    (InMemoryConsoleStore.replay maxPerRun maxRuns log).order = (createdRuns maxRuns log).take (runCap maxRuns) :=
  (replayInv maxPerRun maxRuns log).order

/-! ## The invariant -/

/-- As long as no listed run lost its console. -/
structure KeptInv (options : DuckRunOptions) (registry : JobRegistry fold) (s : Stores) : Prop where
  history : HistoryInv fold options.runsRetainedPerJob s.history
  console : s.console = .replay options.consoleEntriesPerRun (options.maxRuns registry) s.log
  addedFirst : ∀ entry ∈ s.log, entry.runId ∈ (added s.history.calls).map JobRun.id
  whole : ∀ key, ∀ id ∈ s.history.store.list key, sinceCreated (options.maxRuns registry) id s.log = logged id s.log
  listed : ∀ key, ∀ id ∈ s.history.store.list key, id ∈ s.console.order ∨ logged id s.log = []

section Kept
variable {options : DuckRunOptions} {registry : JobRegistry fold} {s s' : Stores}

/-- A run that a reader is given is in a list, under its own id. -/
theorem KeptInv.of_recent (hi : KeptInv options registry s) {jobName : String} {take : Nat} {run : JobRun}
    (h : run ∈ s.history.store.getRecentForJobAsync fold jobName take) : run.id ∈ s.history.store.list (fold jobName) := by
  rw [getRecentForJobAsync_eq] at h
  obtain ⟨id, hid, hrun⟩ := List.mem_filterMap.1 h
  obtain ⟨-, -, -, rfl, -⟩ := hi.history.known id run hrun
  exact List.mem_of_mem_take hid

theorem KeptInv.consolesKept (hi : KeptInv options registry s) : ConsolesKept options fold s := by
  intro jobName take run hrun
  have hmem := hi.of_recent hrun
  have horder := hi.listed _ _ hmem
  rw [hi.console, getForRunAsync_replay]
  rw [hi.console, order_replay] at horder
  split
  · rw [hi.whole _ _ hmem]
  · rename_i hout
    rw [horder.resolve_left hout, List.rtake_nil]

theorem Stores.step_cases {e : StoresEvent} (h : s.step options registry e = some s') :
    (∃ call history, e = .store call ∧ s.history.step fold options.runsRetainedPerJob call = some history ∧
      s' = { s with history }) ∨
    ∃ entry, e = .log entry ∧ entry.runId ∈ (added s.history.calls).map JobRun.id ∧
      s' = { s with
        console := s.console.append options.consoleEntriesPerRun (options.maxRuns registry) entry
        log := entry :: s.log } := by
  cases e with
  | store call =>
    simp only [Stores.step] at h
    split at h
    · obtain ⟨history, hstep, rfl⟩ := Option.map_eq_some_iff.1 h
      exact .inl ⟨call, history, rfl, hstep, rfl⟩
    · cases h
  | log entry =>
    simp only [Stores.step] at h
    split at h <;> cases h
    exact .inr ⟨entry, rfl, ‹_›, rfl⟩

/-- A new run has logged nothing yet, and what else a call leaves in a list was there before. -/
theorem keptInv_store {call : StoreCall} {history : RunHistory} (hi : KeptInv options registry s)
    (hstep : s.history.step fold options.runsRetainedPerJob call = some history) :
    KeptInv options registry { s with history } := by
  have hadded : ∀ id ∈ (added s.history.calls).map JobRun.id, id ∈ (added history.calls).map JobRun.id := by
    obtain ⟨run, rfl, -, rfl⟩ | ⟨run, rfl, -, rfl⟩ := RunHistory.step_cases hstep
    · exact fun id hid => List.mem_cons_of_mem _ hid
    · exact fun id hid => hid
  have hlist : ∀ key, ∀ id ∈ history.store.list key,
      id ∈ s.history.store.list key ∨ ∀ entry ∈ s.log, entry.runId ≠ id := by
    intro key id hid
    obtain ⟨run, rfl, hfresh, rfl⟩ | ⟨run, rfl, -, rfl⟩ := RunHistory.step_cases hstep
    · rw [list_addAsync] at hid
      split at hid
      · rename_i hkey
        rcases mem_push_or_pushedOut.1 (.inl hid) with rfl | hold
        · exact .inr fun entry hentry he => hfresh (he ▸ hi.addedFirst entry hentry)
        · exact .inl (hkey ▸ hold)
      · exact .inl hid
    · exact .inl hid
  refine ⟨historyInv_step hi.history hstep, hi.console, fun entry he => hadded _ (hi.addedFirst entry he),
    fun key id hid => ?_, fun key id hid => ?_⟩
  · rcases hlist key id hid with hold | hnone
    · exact hi.whole key id hold
    · rw [sinceCreated_eq_nil hnone, logged_eq_nil.2 hnone]
  · rcases hlist key id hid with hold | hnone
    · exact hi.listed key id hold
    · exact .inr (logged_eq_nil.2 hnone)

section Log
variable {entry : ConsoleLogEntry}

theorem KeptInv.byRun_none (hi : KeptInv options registry s) : s.console.byRun entry.runId = none ↔ entry.runId ∉ s.console.order := by
  have hreplay := replayInv options.consoleEntriesPerRun (options.maxRuns registry) s.log
  rw [← hi.console] at hreplay
  rw [← hreplay.byRun_iff]
  cases s.console.byRun entry.runId <;> simp

theorem KeptInv.append_eq (hi : KeptInv options registry s) :
    s.console.append options.consoleEntriesPerRun (options.maxRuns registry) entry =
      .replay options.consoleEntriesPerRun (options.maxRuns registry) (entry :: s.log) := by
  rw [hi.console]
  rfl

/-- The order list after a line. -/
theorem KeptInv.order_append (hi : KeptInv options registry s) (entry : ConsoleLogEntry) :
    (s.console.append options.consoleEntriesPerRun (options.maxRuns registry) entry).order =
      if entry.runId ∈ s.console.order then s.console.order
      else push (runCap (options.maxRuns registry)) entry.runId s.console.order := by
  rw [hi.append_eq, order_replay, hi.console, order_replay, createdRuns]
  split
  · rfl
  · exact (push_take _ _ _).symm

theorem keptInv_log (hi : KeptInv options registry s) (hadded : entry.runId ∈ (added s.history.calls).map JobRun.id)
    (hg : PushesOutUnlisted options registry s (.log entry)) :
    KeptInv options registry { s with
      console := s.console.append options.consoleEntriesPerRun (options.maxRuns registry) entry
      log := entry :: s.log } := by
  have hcreated : ∀ id, id ∈ s.console.order ↔
      id ∈ (createdRuns (options.maxRuns registry) s.log).take (runCap (options.maxRuns registry)) := by
    intro id
    rw [hi.console, order_replay]
  refine ⟨hi.history, hi.append_eq, fun e he => ?_, fun key id hid => ?_, fun key id hid => ?_⟩
  · rcases List.mem_cons.1 he with rfl | he
    · exact hadded
    · exact hi.addedFirst e he
  · rw [sinceCreated, logged_cons]
    by_cases hown : entry.runId = id
    · subst hown
      rw [if_pos rfl, if_pos rfl]
      split
      · rw [hi.whole key _ hid]
      · rename_i hout
        rw [(hi.listed key _ hid).resolve_left fun hmem => hout ((hcreated _).1 hmem), List.nil_append]
    · rw [if_neg hown, if_neg hown]
      exact hi.whole key id hid
  · dsimp only
    rw [hi.order_append, logged_cons]
    by_cases hfound : entry.runId ∈ s.console.order
    · rw [if_pos hfound]
      by_cases hown : entry.runId = id
      · exact .inl (hown ▸ hfound)
      · rw [if_neg hown]
        exact hi.listed key id hid
    · have hout := hg entry rfl (hi.byRun_none.2 hfound)
      rw [if_neg hfound]
      by_cases hown : entry.runId = id
      · exact .inl ((mem_push_or_pushedOut.2 (.inl hown.symm)).resolve_right fun hmem => hout id hmem key hid)
      · rw [if_neg hown]
        refine (hi.listed key id hid).imp_left fun hold => ?_
        exact (mem_push_or_pushedOut.2 (.inr hold)).resolve_right fun hmem => hout id hmem key hid

/-- A line that pushes out a listed run's console loses lines a reader is owed. -/
theorem pushesOutUnlisted_of_kept (hi : KeptInv options registry s)
    (hkept : ConsolesKept options fold { s with
      console := s.console.append options.consoleEntriesPerRun (options.maxRuns registry) entry
      log := entry :: s.log }) :
    PushesOutUnlisted options registry s (.log entry) := by
  rintro _ ⟨⟩ hnone id hout key hlisted
  have hnew := hi.byRun_none.1 hnone
  have hreplay := replayInv options.consoleEntriesPerRun (options.maxRuns registry) s.log
  rw [← hi.console] at hreplay
  have hnodup : (entry.runId :: s.console.order).Nodup := List.nodup_cons.2 ⟨hnew, hreplay.nodup⟩
  have hgone : id ∉ push (runCap (options.maxRuns registry)) entry.runId s.console.order :=
    fun hmem => not_mem_pushedOut hnodup hmem hout
  -- With room for one run the newest stays, so it is another run that goes, one that has logged.
  have hown : entry.runId ∈ push (runCap (options.maxRuns registry)) entry.runId s.console.order := by
    obtain ⟨n, hn⟩ := Nat.exists_eq_add_of_le' (one_le_runCap (options.maxRuns registry))
    unfold push
    rw [hn, List.take_succ_cons]
    exact List.mem_cons_self
  have hother : entry.runId ≠ id := fun he => hgone (he ▸ hown)
  have hold : id ∈ s.console.order := (mem_push_or_pushedOut.1 (.inr hout)).resolve_left (Ne.symm hother)
  rw [hreplay.order] at hold
  have hlogged := logged_of_created (List.mem_of_mem_take hold)
  -- A reader of its job is given the run.
  obtain ⟨run, hrun⟩ := hi.history.resolves hlisted
  obtain ⟨x, hx, -, rfl, -⟩ := hi.history.known id run hrun
  obtain ⟨y, -, -, rfl⟩ := hi.history.of_mem_list hlisted
  have hread := hkept y.jobName (s.history.store.list (fold y.jobName)).length run (by
    rw [getRecentForJobAsync_eq, List.take_length]
    exact List.mem_filterMap.2 ⟨run.id, hlisted, hrun⟩)
  have horder := hi.order_append entry
  rw [if_neg hnew, hi.append_eq, order_replay] at horder
  dsimp only at hread
  rw [hi.append_eq, getForRunAsync_replay, horder, if_neg hgone, logged_cons, if_neg hother] at hread
  exact rtake_ne_nil options.oneEntry hlogged hread.symm

end Log

theorem keptInv_start : KeptInv options registry .start where
  history := historyInv_empty
  console := rfl
  addedFirst := by simp [Stores.start]
  whole key id hid := absurd hid (by simp [Stores.start, RunHistory.empty, InMemoryJobRunStore.new, InMemoryJobRunStore.list])
  listed key id hid := absurd hid (by simp [Stores.start, RunHistory.empty, InMemoryJobRunStore.new, InMemoryJobRunStore.list])

end Kept

/-- All along a run every run that the history returns has its last lines,
exactly when no line pushed out the console of a listed run. -/
theorem consoles_kept_iff (options : DuckRunOptions) (registry : JobRegistry fold) (es : List StoresEvent) (s : Stores)
    (hrun : exec (Stores.step options registry) .start es = some s) :
    (∀ pre t, pre <+: es → exec (Stores.step options registry) .start pre = some t → ConsolesKept options fold t) ↔
      Along (Stores.step options registry) (PushesOutUnlisted options registry) .start es := by
  refine forall_prefix_iff_along (KeptInv options registry) (ConsolesKept options fold)
    (fun s hi => hi.consolesKept) (fun s e s' hi hs hg => ?_) (fun s e s' hi hs hkept => ?_) keptInv_start hrun
  · obtain ⟨call, history, rfl, hstep, rfl⟩ | ⟨entry, rfl, hadded, rfl⟩ := Stores.step_cases hs
    · exact keptInv_store hi hstep
    · exact keptInv_log hi hadded hg
  · obtain ⟨call, history, rfl, -, rfl⟩ | ⟨entry, rfl, -, rfl⟩ := Stores.step_cases hs
    · rintro entry ⟨⟩
    · exact pushesOutUnlisted_of_kept hi hkept

/-! ## A job that seldom runs -/

theorem createdRuns_distinct {maxRuns : Int} {log : List ConsoleLogEntry} (h : (log.map ConsoleLogEntry.runId).Nodup) :
    createdRuns maxRuns log = log.map ConsoleLogEntry.runId := by
  induction log with
  | nil => rfl
  | cons entry log ih =>
    rw [List.map_cons, List.nodup_cons] at h
    rw [createdRuns, ih h.2, if_neg fun hmem => h.1 (List.mem_of_mem_take hmem), List.map_cons]

def cronJob (name : String) : JobDescriptor :=
  ⟨name, "0 * * * *", "Jobs", ⟨name, true, []⟩, 1, none, true, true⟩

def twoJobs : JobRegistry id := ⟨[cronJob "seldom", cronJob "often"], by decide⟩

/-- One run a job, one line a run; the console store has room for 1000 runs. -/
def smallest : DuckRunOptions := ⟨1, 1, Nat.le_refl 1, Nat.le_refl 1⟩

def startedLine (runId : Nat) : ConsoleLogEntry := ⟨runId, 0, .info, "started"⟩

/-- A run, then `n` of the job that runs often, each with a line. -/
def oftenRuns (first : String) : Nat → List StoresEvent
  | 0 => [.store (.add (pendingRun 0 first)), .log (startedLine 0)]
  | n + 1 => oftenRuns first n ++ [.store (.add (pendingRun (n + 1) "often")), .log (startedLine (n + 1))]

/-- The runs these events add, the newest in front. -/
def addedRuns (first : String) : Nat → List JobRun
  | 0 => [pendingRun 0 first]
  | n + 1 => pendingRun (n + 1) "often" :: addedRuns first n

theorem addedRuns_ids (first : String) (n : Nat) : (addedRuns first n).map JobRun.id = (List.range (n + 1)).reverse := by
  induction n with
  | zero => rfl
  | succ n ih =>
    rw [addedRuns, List.map_cons, ih, List.range_succ (n := n + 1), List.reverse_append]
    rfl

theorem addedRuns_seldom (n : Nat) :
    (addedRuns "seldom" n).filter (fun run => id run.jobName = "seldom") = [pendingRun 0 "seldom"] := by
  induction n with
  | zero => rfl
  | succ n ih => exact (List.filter_cons_of_neg (by simp [pendingRun])).trans ih

theorem addedRuns_often {n : Nat} {run : JobRun} (h : run ∈ addedRuns "often" n) : run.jobName = "often" := by
  induction n with
  | zero =>
    rw [List.mem_singleton.1 h]
    rfl
  | succ n ih =>
    rcases List.mem_cons.1 h with rfl | h
    · rfl
    · exact ih h

section Often
variable {first : String} {n : Nat}

/-- The stores after the events of `n` further runs. -/
structure AfterRuns (first : String) (n : Nat) (s : Stores) : Prop where
  history : HistoryInv id 1 s.history
  console : s.console = .replay 1 1000 s.log
  added : added s.history.calls = addedRuns first n
  log : s.log.map ConsoleLogEntry.runId = (List.range (n + 1)).reverse

/-- One more run is added. -/
theorem exec_often_add {s : Stores} (hs : AfterRuns first n s) :
    ∃ history, s.step smallest twoJobs (.store (.add (pendingRun (n + 1) "often"))) = some { s with history } ∧
      HistoryInv id 1 history ∧ Runtime.added history.calls = addedRuns first (n + 1) := by
  have hfresh : (pendingRun (n + 1) "often").id ∉ (Runtime.added s.history.calls).map JobRun.id := by
    rw [hs.added, addedRuns_ids, List.mem_reverse, List.mem_range]
    exact Nat.lt_irrefl _
  have hcall : s.history.step id 1 (.add (pendingRun (n + 1) "often")) =
      some ⟨s.history.store.addAsync id 1 (pendingRun (n + 1) "often"), .add (pendingRun (n + 1) "often") :: s.history.calls⟩ :=
    if_pos hfresh
  have hjob : ∃ job ∈ twoJobs.all, (pendingRun (n + 1) "often").jobName = job.name :=
    ⟨cronJob "often", List.mem_cons_of_mem _ List.mem_cons_self, rfl⟩
  refine ⟨_, ?_, historyInv_step hs.history hcall, ?_⟩
  · unfold Stores.step
    exact (if_pos hjob).trans (congrArg (Option.map fun history => { s with history }) hcall)
  · exact congrArg (pendingRun (n + 1) "often" :: ·) hs.added

/-- And it logs its line. -/
theorem afterRuns_log {s : Stores} (hs : AfterRuns first n s) {history : RunHistory} (hhistory : HistoryInv id 1 history)
    (hadded : Runtime.added history.calls = addedRuns first (n + 1)) :
    ∃ s', Stores.step smallest twoJobs { s with history } (.log (startedLine (n + 1))) = some s' ∧
      AfterRuns first (n + 1) s' := by
  have hmem : (startedLine (n + 1)).runId ∈ (Runtime.added history.calls).map JobRun.id := by
    rw [hadded]
    exact List.mem_cons_self
  refine ⟨_, if_pos hmem, hhistory, ?_, hadded, ?_⟩
  · dsimp only
    rw [hs.console]
    rfl
  · rw [List.map_cons, hs.log, List.range_succ (n := n + 1), List.reverse_append]
    rfl

theorem step_first (hfirst : ∃ job ∈ twoJobs.all, first = job.name) :
    ∃ history, Stores.step smallest twoJobs .start (.store (.add (pendingRun 0 first))) = some { Stores.start with history } ∧
      HistoryInv id 1 history ∧ Runtime.added history.calls = addedRuns first 0 := by
  have hadd : exec (RunHistory.step id 1) .empty [.add (pendingRun 0 first)] = some _ := rfl
  exact ⟨_, if_pos hfirst, historyInv_exec hadd, rfl⟩

theorem exec_oftenRuns (hfirst : ∃ job ∈ twoJobs.all, first = job.name) (n : Nat) :
    ∃ s, exec (Stores.step smallest twoJobs) .start (oftenRuns first n) = some s ∧ AfterRuns first n s := by
  induction n with
  | zero =>
    obtain ⟨history, hadd, hhistory, hadded⟩ := step_first hfirst
    have hmem : (startedLine 0).runId ∈ (Runtime.added history.calls).map JobRun.id := by
      rw [hadded]
      exact List.mem_cons_self
    exact ⟨_, exec_cons_some.2 ⟨_, hadd, exec_cons_some.2 ⟨_, if_pos hmem, rfl⟩⟩, hhistory, rfl, hadded, rfl⟩
  | succ n ih =>
    obtain ⟨s, hs, hafter⟩ := ih
    obtain ⟨history, hadd, hhistory, hadded⟩ := exec_often_add hafter
    obtain ⟨s', hlog, hafter'⟩ := afterRuns_log hafter hhistory hadded
    refine ⟨s', ?_, hafter'⟩
    rw [oftenRuns, exec_append, hs, Option.bind_some]
    exact exec_cons_some.2 ⟨_, hadd, exec_cons_some.2 ⟨_, hlog, rfl⟩⟩

/-- Past the room, the console of the first run is gone. -/
theorem AfterRuns.first_gone {s : Stores} (hs : AfterRuns first n s) (hn : 1000 ≤ n) : s.console.getForRunAsync 0 = [] := by
  have hnodup : (s.log.map ConsoleLogEntry.runId).Nodup := hs.log ▸ List.nodup_reverse.2 List.nodup_range
  rw [hs.console, getForRunAsync_replay, createdRuns_distinct hnodup, hs.log, if_neg]
  have hcap : runCap 1000 = 1000 := rfl
  rw [hcap, List.range_succ_eq_map, List.reverse_cons, List.take_append_of_le_length (by simpa using hn)]
  intro hmem
  have hlast := List.mem_of_mem_take hmem
  simp at hlast

end Often

/-- The console of the run that its job's history still lists is gone. -/
theorem seldom_console_lost :
    ¬ ∀ (fold : String → String) (options : DuckRunOptions) (registry : JobRegistry fold) (es : List StoresEvent) (s : Stores),
      exec (Stores.step options registry) .start es = some s → ConsolesKept options fold s := by
  intro h
  obtain ⟨s, hs, hafter⟩ := @exec_oftenRuns "seldom" ⟨cronJob "seldom", List.mem_cons_self, rfl⟩ 1000
  have hlisted : 0 ∈ s.history.store.list "seldom" := by
    rw [hafter.history.lists, addedUnder, hafter.added, addedRuns_seldom]
    exact List.mem_cons_self
  obtain ⟨run, hrun⟩ := hafter.history.resolves hlisted
  obtain ⟨-, -, -, hid, -⟩ := hafter.history.known 0 run hrun
  have hread := h id smallest twoJobs (oftenRuns "seldom" 1000) s hs "seldom" (s.history.store.list "seldom").length run (by
    rw [getRecentForJobAsync_eq]
    exact List.mem_filterMap.2 ⟨0, by rwa [id_eq, List.take_length], hrun⟩)
  rw [hid, hafter.first_gone (Nat.le_refl 1000)] at hread
  refine rtake_ne_nil (Nat.le_refl 1) ?_ hread.symm
  rw [ne_eq, logged_eq_nil]
  intro hnone
  have hmem : 0 ∈ s.log.map ConsoleLogEntry.runId := by
    rw [hafter.log, List.mem_reverse]
    exact List.mem_range.2 (Nat.succ_pos _)
  obtain ⟨entry, hentry, hrunId⟩ := List.mem_map.1 hmem
  exact hnone entry hentry hrunId

/-- Where only one job runs, a list of one run has the run added last. -/
theorem listed_newest {history : RunHistory} (hhistory : HistoryInv id 1 history) {n : Nat}
    (hadded : added history.calls = addedRuns "often" (n + 1)) {key : String} {runId : Nat}
    (h : runId ∈ history.store.list key) : runId = n + 1 := by
  rw [hhistory.lists, addedUnder, hadded] at h
  simp only [id_eq] at h
  by_cases hkey : key = "often"
  · rw [List.filter_eq_self.2 fun run hrun => decide_eq_true ((addedRuns_often hrun).trans hkey.symm), addedRuns,
      List.map_cons, List.take_succ_cons, List.take_zero] at h
    exact List.mem_singleton.1 h
  · rw [List.filter_eq_nil_iff.2 fun run hrun he =>
      hkey ((of_decide_eq_true he).symm.trans (addedRuns_often hrun))] at h
    cases h

/-- With one job no line pushes out the run that its history lists. -/
theorem along_oftenRuns (n : Nat) :
    Along (Stores.step smallest twoJobs) (PushesOutUnlisted smallest twoJobs) .start (oftenRuns "often" n) := by
  have hoften : ∃ job ∈ twoJobs.all, "often" = job.name := ⟨cronJob "often", List.mem_cons_of_mem _ List.mem_cons_self, rfl⟩
  induction n with
  | zero =>
    obtain ⟨history, hadd, -, hadded⟩ := step_first hoften
    have hmem : (startedLine 0).runId ∈ (added history.calls).map JobRun.id := by
      rw [hadded]
      exact List.mem_cons_self
    refine along_cons nofun hadd (along_cons ?_ (if_pos hmem) trivial)
    rintro entry ⟨⟩ - runId hout
    cases hout
  | succ n ih =>
    refine along_append_intro ih fun t ht => ?_
    obtain ⟨s, hs, hafter⟩ := exec_oftenRuns hoften n
    have hst : s = t := Option.some.inj (hs.symm.trans ht)
    subst hst
    obtain ⟨history, hadd, hhistory, hadded⟩ := exec_often_add hafter
    obtain ⟨s', hlog, -⟩ := afterRuns_log hafter hhistory hadded
    refine along_cons nofun hadd (along_cons ?_ hlog trivial)
    rintro entry ⟨⟩ - runId hout key hlisted
    obtain rfl := listed_newest hhistory hadded hlisted
    -- The run that logs is the newest, and the push keeps it.
    have hreplay := replayInv 1 1000 s.log
    rw [← hafter.console] at hreplay
    have hnew : n + 1 ∉ s.console.order := by
      rw [hreplay.order, createdRuns_distinct (hafter.log ▸ List.nodup_reverse.2 List.nodup_range), hafter.log]
      intro hmem
      have hlogged := List.mem_of_mem_take hmem
      rw [List.mem_reverse, List.mem_range] at hlogged
      exact Nat.lt_irrefl _ hlogged
    have hkept : n + 1 ∈ push (runCap 1000) (n + 1) s.console.order := List.mem_cons_self
    exact not_mem_pushedOut (List.nodup_cons.2 ⟨hnew, hreplay.nodup⟩) hkept hout

theorem consoles_kept_oftenRuns :
    ∃ s, exec (Stores.step smallest twoJobs) .start (oftenRuns "often" 1000) = some s ∧ ConsolesKept smallest id s ∧
      s.console.getForRunAsync 0 = [] := by
  have hkept := fun n s hs => (consoles_kept_iff smallest twoJobs (oftenRuns "often" n) s hs).2 (along_oftenRuns n)
    (oftenRuns "often" n) s List.prefix_rfl hs
  obtain ⟨s, hs, hafter⟩ := @exec_oftenRuns "often" ⟨cronJob "often", List.mem_cons_of_mem _ List.mem_cons_self, rfl⟩ 1000
  exact ⟨s, hs, hkept 1000 s hs, hafter.first_gone (Nat.le_refl 1000)⟩

end DuckRun.Logging
