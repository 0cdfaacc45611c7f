import DuckRun.Reporting.GrpcDashboardReporter
import DuckRun.Logging.InMemoryConsoleStore
/-!
# Stopping the reporter

`StopAsync` cancels the token the flush loops run under, completes both
channels and waits for the tasks. A loop takes no further batch from its
channel once the token is cancelled; only a batch it is reading is still read
to its end. `handed` is what will then have been sent, and it does not change
any more.
-/

namespace DuckRun.Reporting

open DuckRun.Lib DuckRun.Dashboard DuckRun.Logging

/-! ## One loop -/

section Loop
variable {α : Type} {size : Nat}

/-- How many records fit into the batch being read. -/
def FlushLoop.room (size : Nat) (loop : FlushLoop α) : Nat :=
  match loop.phase with
  | .reading batch => size - batch.length
  | _ => 0

/-- The records of the calls made so far. -/
def FlushLoop.messages (loop : FlushLoop α) : List α := (loop.sends.map Prod.fst).flatten

/-- How many records a cancelled loop sends over its whole life. -/
def FlushLoop.handed (size : Nat) (loop : FlushLoop α) : Nat :=
  loop.messages.length + loop.phase.batch.length + min (loop.room size) loop.channel.length

/-- Of the records reported so far, the loop has read all but as many as fit
into the batch it is reading. -/
def FlushLoop.Drains (size : Nat) (reported : List α) (loop : FlushLoop α) : Prop :=
  loop.channel.length ≤ loop.room size + (loop.accepted.length - reported.length)

instance (reported : List α) (loop : FlushLoop α) : Decidable (loop.Drains size reported) :=
  inferInstanceAs (Decidable (_ ≤ _))

/-- The batches sent are the reported records, in their order, and perhaps
records that were reported later. -/
def FlushLoop.HandedOver (reported : List α) (loop : FlushLoop α) : Prop := reported <+: loop.messages

theorem Flushing.length {loop : FlushLoop α} (hi : Flushing size loop) :
    loop.messages.length + loop.phase.batch.length + loop.channel.length = loop.accepted.length := by
  rw [← hi.conserved, FlushLoop.unsent, FlushLoop.messages]
  simp only [List.length_append]
  omega

theorem drains_iff_handed {loop : FlushLoop α} (hi : Flushing size loop) {reported : List α} (hle : reported.length ≤ loop.accepted.length) :
    loop.Drains size reported ↔ reported.length ≤ loop.handed size := by
  have hlength := hi.length
  unfold FlushLoop.Drains FlushLoop.handed
  omega

/-- What an exited loop has sent is what it has handed over. -/
theorem handed_exited {loop : FlushLoop α} (h : loop.phase = .exited) : loop.handed size = loop.messages.length := by
  simp [FlushLoop.handed, FlushLoop.room, FlushPhase.batch, h]

/-- Two beginnings of the accepted records compare by length. -/
theorem handedOver_iff {loop : FlushLoop α} (hi : Flushing size loop) {reported : List α} (hpre : reported <+: loop.accepted) :
    loop.HandedOver reported ↔ reported.length ≤ loop.messages.length := by
  have hmessages : loop.messages <+: loop.accepted := ⟨loop.unsent, hi.conserved⟩
  exact ⟨fun h => h.length_le, fun h => List.prefix_of_prefix_length_le hpre hmessages h⟩

/-- Once the token is cancelled only a write adds to what the loop hands over,
and only where it hands over everything already. -/
theorem handed_step {loop loop' : FlushLoop α} {e : FlushEvent α} (hc : loop.cancelled = true)
    (h : loop.step size e = some loop') :
    loop'.handed size = loop.handed size ∨
      (loop.handed size < loop'.handed size ∧ loop.channel.length ≤ loop.room size) := by
  cases e with
  | tryWrite record =>
    simp only [FlushLoop.step] at h
    split at h <;> cases h
    · exact .inl rfl
    · simp only [FlushLoop.handed, FlushLoop.messages, FlushLoop.room, List.length_append, List.length_singleton]
      omega
  | wake =>
    simp only [FlushLoop.step, hc, if_true] at h
    split at h <;> cases h
    rename_i hphase
    exact .inl (by simp [FlushLoop.handed, FlushLoop.messages, FlushLoop.room, FlushPhase.batch, hphase])
  | tryRead =>
    simp only [FlushLoop.step] at h
    split at h
    · rename_i batch hphase
      have hends : (FlushLoop.room size { loop with phase := .readEnds batch }) = 0 := by cases batch <;> rfl
      split at h
      · rename_i hchannel
        cases h
        left
        rw [FlushLoop.handed, FlushLoop.handed, hends, readEnds_batch]
        simp [FlushLoop.messages, FlushPhase.batch, hphase, hchannel]
      · rename_i record channel hchannel
        split at h <;> cases h <;> left
        · simp only [FlushLoop.handed, FlushLoop.messages, FlushLoop.room, FlushPhase.batch, hphase, hchannel,
            List.length_append, List.length_cons, List.length_nil]
          omega
        · rw [FlushLoop.handed, FlushLoop.handed, hends, readEnds_batch]
          simp only [FlushLoop.messages, FlushLoop.room, FlushPhase.batch, hphase, hchannel, List.length_cons]
          omega
    · cases h
  | sendReturns outcome =>
    simp only [FlushLoop.step] at h
    split at h <;> cases h
    rename_i batch hphase
    left
    cases outcome <;> simp [FlushLoop.handed, FlushLoop.messages, FlushLoop.room, FlushPhase.batch, hphase]
  | delayEnds =>
    simp only [FlushLoop.step, hc, if_true] at h
    split at h <;> cases h
    rename_i hphase
    exact .inl (by simp [FlushLoop.handed, FlushLoop.messages, FlushLoop.room, FlushPhase.batch, hphase])
  | cancel | tryComplete =>
    cases h
    exact .inl rfl

/-- A step of a cancelled loop makes no difference to which of the records
accepted before it are handed over. -/
theorem le_handed_step {loop loop' : FlushLoop α} {e : FlushEvent α} (hi : Flushing size loop) (hc : loop.cancelled = true)
    {n : Nat} (hle : n ≤ loop.accepted.length) (h : loop.step size e = some loop') :
    n ≤ loop'.handed size ↔ n ≤ loop.handed size := by
  rcases handed_step hc h with heq | ⟨hlt, hroom⟩
  · rw [heq]
  · have hall : loop.handed size = loop.accepted.length := by
      rw [← hi.length, FlushLoop.handed, Nat.min_eq_right hroom]
    exact ⟨fun _ => hall ▸ hle, fun hn => Nat.le_of_lt (Nat.lt_of_le_of_lt hn hlt)⟩

/-- A step of the loop itself. -/
def FlushEvent.ofLoop : FlushEvent α → Bool
  | .wake | .tryRead | .sendReturns _ | .delayEnds => true
  | _ => false

/-- A task has ended. -/
def FlushLoop.ended (loop : FlushLoop α) : Bool :=
  match loop.phase with
  | .exited => true
  | _ => false

theorem exited_of_ended {loop : FlushLoop α} (h : loop.ended = true) : loop.phase = .exited := by
  unfold FlushLoop.ended at h
  split at h
  · assumption
  · cases h

end Loop

/-! ## The reporter -/

/-- `ToProto` of a log line. -/
def logToProto (entry : ConsoleLogEntry) : LogEntry where
  runId := (guidText (BitVec.ofNat 128 entry.runId)).toList
  timestamp := some (fromDateTimeOffset entry.timestamp)
  level := (match entry.level with
    | .info => "Info"
    | .warning => "Warning"
    | .error => "Error").toList
  message := entry.message.toList

/-- Where the call of `StopAsync` is that found `_stopped` zero. -/
inductive StopPhase where
  | notCalled
  /-- It has set `_stopped`. -/
  | called
  | cancelled
  | runsCompleted
  /-- In one of the four `SafeWait`s. -/
  | waiting
  | returned
  deriving DecidableEq

/-- A reporter whose `StartAsync` has returned. -/
structure ReporterTasks where
  runs : FlushLoop RunRecord
  logs : FlushLoop LogEntry
  handshakeEnded : Bool
  heartbeatEnded : Bool
  stop : StopPhase

def ReporterTasks.started : ReporterTasks := ⟨.start, .start, false, false, .notCalled⟩

inductive ReporterTaskEvent where
  | reportRun (run : ReportedRun)
  | reportLog (entry : ConsoleLogEntry)
  /-- A step of `FlushRunsAsync`. -/
  | flushRuns (e : FlushEvent RunRecord)
  | flushLogs (e : FlushEvent LogEntry)
  | handshakeEnds
  | heartbeatEnds
  | stopAsync
  /-- `_stop.Cancel()`. -/
  | cancel
  | completeRuns
  | completeLogs
  | stopReturns

def ReporterTasks.flushRuns (s : ReporterTasks) (e : FlushEvent RunRecord) : Option ReporterTasks :=
  (s.runs.step 100 e).map fun runs => { s with runs := runs }

def ReporterTasks.flushLogs (s : ReporterTasks) (e : FlushEvent LogEntry) : Option ReporterTasks :=
  (s.logs.step 200 e).map fun logs => { s with logs := logs }

def ReporterTasks.step (nodeId : Text) (s : ReporterTasks) : ReporterTaskEvent → Option ReporterTasks
  | .reportRun run => s.flushRuns (.tryWrite (toProto nodeId run))
  | .reportLog entry => s.flushLogs (.tryWrite (logToProto entry))
  | .flushRuns e => if e.ofLoop then s.flushRuns e else none
  | .flushLogs e => if e.ofLoop then s.flushLogs e else none
  | .handshakeEnds => some { s with handshakeEnded := true }
  | .heartbeatEnds => some { s with heartbeatEnded := true }
  | .stopAsync =>
    -- A second call returns at once.
    if s.stop = .notCalled then some { s with stop := .called } else some s
  | .cancel =>
    if s.stop = .called then
      some { s with
        runs := { s.runs with cancelled := true }
        logs := { s.logs with cancelled := true }
        stop := .cancelled }
    else none
  | .completeRuns =>
    if s.stop = .cancelled then some { s with runs := { s.runs with completed := true }, stop := .runsCompleted } else none
  | .completeLogs =>
    if s.stop = .runsCompleted then some { s with logs := { s.logs with completed := true }, stop := .waiting } else none
  | .stopReturns =>
    if s.stop = .waiting ∧ s.handshakeEnded ∧ s.runs.ended ∧ s.logs.ended ∧ s.heartbeatEnded then
      some { s with stop := .returned }
    else none

/-- The records of the calls of `ReportRun`, in order. -/
def reportedRuns (nodeId : Text) (es : List ReporterTaskEvent) : List RunRecord :=
  es.filterMap fun
    | .reportRun run => some (toProto nodeId run)
    | _ => none

def reportedLogs (es : List ReporterTaskEvent) : List LogEntry :=
  es.filterMap fun
    | .reportLog entry => some (logToProto entry)
    | _ => none

/-! ## What a run keeps -/

/-- What holds between a loop and what it has become. -/
structure FlushLoop.Since {α : Type} (size : Nat) (loop loop' : FlushLoop α) : Prop where
  flushing : Flushing size loop'
  accepted : loop.accepted <+: loop'.accepted
  cancelled : loop.cancelled = true → loop'.cancelled = true
  handed : loop.cancelled = true → ∀ n ≤ loop.accepted.length, n ≤ loop'.handed size ↔ n ≤ loop.handed size

section Since
variable {α : Type} {size : Nat} {loop loop' : FlushLoop α}

theorem FlushLoop.Since.refl (hi : Flushing size loop) : FlushLoop.Since size loop loop :=
  ⟨hi, List.prefix_rfl, id, fun _ _ _ => Iff.rfl⟩

theorem FlushLoop.Since.step {next : FlushLoop α} {e : FlushEvent α} (hs : FlushLoop.Since size loop loop')
    (h : loop'.step size e = some next) : FlushLoop.Since size loop next := by
  obtain ⟨haccepted, -, hcancelled, -⟩ := step_effects h
  refine ⟨flushing_step hs.flushing h, ?_, ?_, ?_⟩
  · rw [haccepted]
    exact hs.accepted.trans (List.prefix_append _ _)
  · intro hc
    have hc' := hs.cancelled hc
    by_contra hnot
    rw [hcancelled (Bool.eq_false_iff.2 hnot)] at hc'
    cases hc'
  · intro hc n hn
    exact (le_handed_step hs.flushing (hs.cancelled hc) (hn.trans hs.accepted.length_le) h).trans (hs.handed hc n hn)

end Since

section Runs
variable {nodeId : Text} {s s' t : ReporterTasks} {e : ReporterTaskEvent} {es : List ReporterTaskEvent}

theorem flushRuns_some {f : FlushEvent RunRecord} (h : s.flushRuns f = some s') :
    ∃ runs, s.runs.step 100 f = some runs ∧ s' = { s with runs := runs } := by
  obtain ⟨runs, hruns, rfl⟩ := Option.map_eq_some_iff.1 h
  exact ⟨runs, hruns, rfl⟩

theorem flushLogs_some {f : FlushEvent LogEntry} (h : s.flushLogs f = some s') :
    ∃ logs, s.logs.step 200 f = some logs ∧ s' = { s with logs := logs } := by
  obtain ⟨logs, hlogs, rfl⟩ := Option.map_eq_some_iff.1 h
  exact ⟨logs, hlogs, rfl⟩

/-- A step is at most one step of each loop. -/
theorem reporterTasks_step (h : s.step nodeId e = some s') :
    (s'.runs = s.runs ∨ ∃ f, s.runs.step 100 f = some s'.runs) ∧
      (s'.logs = s.logs ∨ ∃ f, s.logs.step 200 f = some s'.logs) := by
  cases e with
  | reportRun run =>
    obtain ⟨runs, hruns, rfl⟩ := flushRuns_some h
    exact ⟨.inr ⟨_, hruns⟩, .inl rfl⟩
  | reportLog entry =>
    obtain ⟨logs, hlogs, rfl⟩ := flushLogs_some h
    exact ⟨.inl rfl, .inr ⟨_, hlogs⟩⟩
  | flushRuns f =>
    obtain ⟨-, h⟩ := Option.ite_none_right_eq_some.1 h
    obtain ⟨runs, hruns, rfl⟩ := flushRuns_some h
    exact ⟨.inr ⟨_, hruns⟩, .inl rfl⟩
  | flushLogs f =>
    obtain ⟨-, h⟩ := Option.ite_none_right_eq_some.1 h
    obtain ⟨logs, hlogs, rfl⟩ := flushLogs_some h
    exact ⟨.inl rfl, .inr ⟨_, hlogs⟩⟩
  | handshakeEnds | heartbeatEnds =>
    cases h
    exact ⟨.inl rfl, .inl rfl⟩
  | stopAsync =>
    simp only [ReporterTasks.step] at h
    split at h <;> cases h <;> exact ⟨.inl rfl, .inl rfl⟩
  | cancel =>
    obtain ⟨-, h⟩ := Option.ite_none_right_eq_some.1 h
    cases h
    exact ⟨.inr ⟨.cancel, rfl⟩, .inr ⟨.cancel, rfl⟩⟩
  | completeRuns =>
    obtain ⟨-, h⟩ := Option.ite_none_right_eq_some.1 h
    cases h
    exact ⟨.inr ⟨.tryComplete, rfl⟩, .inl rfl⟩
  | completeLogs =>
    obtain ⟨-, h⟩ := Option.ite_none_right_eq_some.1 h
    cases h
    exact ⟨.inl rfl, .inr ⟨.tryComplete, rfl⟩⟩
  | stopReturns =>
    obtain ⟨-, h⟩ := Option.ite_none_right_eq_some.1 h
    cases h
    exact ⟨.inl rfl, .inl rfl⟩

theorem since_run (hruns : Flushing 100 s.runs) (hlogs : Flushing 200 s.logs)
    (h : exec (ReporterTasks.step nodeId) s es = some s') :
    FlushLoop.Since 100 s.runs s'.runs ∧ FlushLoop.Since 200 s.logs s'.logs := by
  refine exec_inv (fun t => FlushLoop.Since 100 s.runs t.runs ∧ FlushLoop.Since 200 s.logs t.logs) ?_
    ⟨.refl hruns, .refl hlogs⟩ h
  rintro t e t' ⟨hruns, hlogs⟩ hstep
  obtain ⟨hr, hl⟩ := reporterTasks_step hstep
  constructor
  · rcases hr with heq | ⟨f, hf⟩
    · rwa [heq]
    · exact hruns.step hf
  · rcases hl with heq | ⟨f, hf⟩
    · rwa [heq]
    · exact hlogs.step hf

theorem reportedRuns_snoc (es : List ReporterTaskEvent) (e : ReporterTaskEvent) :
    reportedRuns nodeId (es ++ [e]) = reportedRuns nodeId es ++ reportedRuns nodeId [e] := List.filterMap_append

theorem reportedLogs_snoc (es : List ReporterTaskEvent) (e : ReporterTaskEvent) :
    reportedLogs (es ++ [e]) = reportedLogs es ++ reportedLogs [e] := List.filterMap_append

/-- A step of the loop itself takes nothing into the channel, and completes nothing. -/
theorem ofLoop_step {α : Type} {size : Nat} {loop loop' : FlushLoop α} {f : FlushEvent α} (hf : f.ofLoop = true)
    (h : loop.step size f = some loop') : loop'.accepted = loop.accepted ∧ loop'.completed = loop.completed := by
  cases f with
  | wake =>
    obtain ⟨haccepted, -, -, hcompleted⟩ := step_reads (.inl rfl) h
    exact ⟨haccepted, hcompleted⟩
  | tryRead =>
    obtain ⟨haccepted, -, -, hcompleted⟩ := step_reads (.inr rfl) h
    exact ⟨haccepted, hcompleted⟩
  | sendReturns _ | delayEnds =>
    simp only [FlushLoop.step] at h
    split at h <;> cases h
    exact ⟨rfl, rfl⟩
  | tryWrite _ | cancel | tryComplete => cases hf

/-- Before the stop both channels take every record. -/
structure Open (nodeId : Text) (es : List ReporterTaskEvent) (s : ReporterTasks) : Prop where
  runsOpen : s.runs.completed = false
  logsOpen : s.logs.completed = false
  runs : s.runs.accepted = reportedRuns nodeId es
  logs : s.logs.accepted = reportedLogs es

theorem open_step (ho : s.stop = .notCalled → Open nodeId es s) (h : s.step nodeId e = some s') :
    s'.stop = .notCalled → Open nodeId (es ++ [e]) s' := by
  intro hstop
  have hnil : reportedRuns nodeId [e] = [] → reportedLogs [e] = [] → s.stop = .notCalled → s'.runs.completed = s.runs.completed →
      s'.logs.completed = s.logs.completed → s'.runs.accepted = s.runs.accepted → s'.logs.accepted = s.logs.accepted →
      Open nodeId (es ++ [e]) s' := by
    intro hr hl hs hrc hlc hra hla
    obtain ⟨hruns, hlogs, hruns', hlogs'⟩ := ho hs
    refine ⟨hrc.trans hruns, hlc.trans hlogs, ?_, ?_⟩
    · rw [reportedRuns_snoc, hr, List.append_nil, hra, hruns']
    · rw [reportedLogs_snoc, hl, List.append_nil, hla, hlogs']
  cases e with
  | reportRun run =>
    obtain ⟨runs, hruns, rfl⟩ := flushRuns_some h
    obtain ⟨hopen, hlogs, haccepted, haccepted'⟩ := ho hstop
    simp only [FlushLoop.step, hopen, Bool.false_eq_true, if_false, Option.some.injEq] at hruns
    subst hruns
    refine ⟨rfl, hlogs, ?_, ?_⟩
    · rw [reportedRuns_snoc, ← haccepted]
      rfl
    · rw [reportedLogs_snoc, ← haccepted']
      exact (List.append_nil _).symm
  | reportLog entry =>
    obtain ⟨logs, hlogs, rfl⟩ := flushLogs_some h
    obtain ⟨hruns, hopen, haccepted, haccepted'⟩ := ho hstop
    simp only [FlushLoop.step, hopen, Bool.false_eq_true, if_false, Option.some.injEq] at hlogs
    subst hlogs
    refine ⟨hruns, rfl, ?_, ?_⟩
    · rw [reportedRuns_snoc, ← haccepted]
      exact (List.append_nil _).symm
    · rw [reportedLogs_snoc, ← haccepted']
      rfl
  | flushRuns f =>
    obtain ⟨hf, h⟩ := Option.ite_none_right_eq_some.1 h
    obtain ⟨runs, hruns, rfl⟩ := flushRuns_some h
    obtain ⟨haccepted, hcompleted⟩ := ofLoop_step hf hruns
    exact hnil rfl rfl hstop hcompleted rfl haccepted rfl
  | flushLogs f =>
    obtain ⟨hf, h⟩ := Option.ite_none_right_eq_some.1 h
    obtain ⟨logs, hlogs, rfl⟩ := flushLogs_some h
    obtain ⟨haccepted, hcompleted⟩ := ofLoop_step hf hlogs
    exact hnil rfl rfl hstop rfl hcompleted rfl haccepted
  | handshakeEnds | heartbeatEnds =>
    cases h
    exact hnil rfl rfl hstop rfl rfl rfl rfl
  | stopAsync =>
    simp only [ReporterTasks.step] at h
    split at h <;> cases h
    · cases hstop
    · exact absurd hstop ‹_›
  | cancel | completeRuns | completeLogs | stopReturns =>
    obtain ⟨-, h⟩ := Option.ite_none_right_eq_some.1 h
    cases h
    cases hstop

theorem open_run (h : exec (ReporterTasks.step nodeId) .started es = some s) : s.stop = .notCalled → Open nodeId es s :=
  exec_history (fun es s => s.stop = .notCalled → Open nodeId es s) (fun _ _ _ _ => open_step)
    (fun _ => ⟨rfl, rfl, rfl, rfl⟩) h

/-! ## The stop -/

/-- What a loop sent in the end are the records reported before the stop exactly
if it had read them, up to the batch being read, when the token was cancelled. -/
theorem handedOver_iff_drains {α : Type} {size : Nat} {called cancelling stopped : FlushLoop α}
    (hcalled : FlushLoop.Since size called cancelling)
    (hstopped : FlushLoop.Since size { cancelling with cancelled := true } stopped) (hended : stopped.ended = true) :
    stopped.HandedOver called.accepted ↔ cancelling.Drains size called.accepted := by
  have hpre := hcalled.accepted.trans hstopped.accepted
  have hhanded := hstopped.handed rfl called.accepted.length hcalled.accepted.length_le
  rw [handedOver_iff hstopped.flushing hpre, drains_iff_handed hcalled.flushing hcalled.accepted.length_le,
    ← @handed_exited _ size _ (exited_of_ended hended)]
  exact hhanded

/-- In every run, however the loops and the calls interleave, and however the
sends end: what was reported before `StopAsync` was called has been sent, each
record in exactly one batch, when it returns, exactly if at the moment it
cancels the token each loop has read it from the channel up to what fits into the
batch it is reading. -/
theorem stop_drains_iff {before between after : List ReporterTaskEvent} {called cancelling stopped : ReporterTasks}
    (hbefore : exec (ReporterTasks.step nodeId) .started before = some called) (hfirst : called.stop = .notCalled)
    (hbetween : exec (ReporterTasks.step nodeId) called (.stopAsync :: between) = some cancelling)
    (hafter : exec (ReporterTasks.step nodeId) cancelling (.cancel :: (after ++ [.stopReturns])) = some stopped) :
    (stopped.runs.HandedOver (reportedRuns nodeId before) ∧ stopped.logs.HandedOver (reportedLogs before)) ↔
      (cancelling.runs.Drains 100 (reportedRuns nodeId before) ∧ cancelling.logs.Drains 200 (reportedLogs before)) := by
  obtain ⟨-, -, hruns, hlogs⟩ := open_run hbefore hfirst
  obtain ⟨hruns₀, hlogs₀⟩ := since_run (flushing_start 100) (flushing_start 200) hbefore
  obtain ⟨hruns₁, hlogs₁⟩ := since_run hruns₀.flushing hlogs₀.flushing hbetween
  obtain ⟨t, hcancel, hafter⟩ := exec_cons_some.1 hafter
  obtain ⟨-, hcancel⟩ := Option.ite_none_right_eq_some.1 hcancel
  cases hcancel
  obtain ⟨hruns₂, hlogs₂⟩ := since_run (flushing_step hruns₁.flushing (e := .cancel) rfl)
    (flushing_step hlogs₁.flushing (e := .cancel) rfl) hafter
  -- The last step is the return, which comes only after both loops have ended.
  obtain ⟨u, -, hreturn⟩ := Option.bind_eq_some_iff.1 ((exec_append _ after _).symm.trans hafter)
  obtain ⟨v, hreturn, hv⟩ := exec_cons_some.1 hreturn
  cases hv
  obtain ⟨⟨-, -, hrunsEnded, hlogsEnded, -⟩, hreturn⟩ := Option.ite_none_right_eq_some.1 hreturn
  cases hreturn
  rw [← hruns, ← hlogs]
  exact and_congr (handedOver_iff_drains hruns₁ hruns₂ hrunsEnded) (handedOver_iff_drains hlogs₁ hlogs₂ hlogsEnded)

end Runs

/-- The stop comes while the loop is reading its batch. -/
def stoppedWhileReading : List ReporterTaskEvent :=
  [.flushRuns .tryRead, .flushRuns .tryRead, .flushRuns (.sendReturns .delivered), .flushRuns .delayEnds,
    .completeRuns, .completeLogs, .flushLogs .wake, .handshakeEnds, .heartbeatEnds]

theorem stop_drains_whileReading :
    ∃ reading stopped, exec (ReporterTasks.step []) .started [.reportRun pendingSync, .flushRuns .wake, .stopAsync] =
        some reading ∧
      exec (ReporterTasks.step []) reading (.cancel :: (stoppedWhileReading ++ [.stopReturns])) = some stopped ∧
      stopped.runs.HandedOver [toProto [] pendingSync] := by
  have hdrains := (@stop_drains_iff [] [.reportRun pendingSync, .flushRuns .wake] [] stoppedWhileReading
    ⟨⟨[toProto [] pendingSync], false, false, .reading [], [toProto [] pendingSync], []⟩, .start, false, false, .notCalled⟩
    ⟨⟨[toProto [] pendingSync], false, false, .reading [], [toProto [] pendingSync], []⟩, .start, false, false, .called⟩
    ⟨⟨[], true, true, .exited, [toProto [] pendingSync], [([toProto [] pendingSync], .delivered)]⟩,
      ⟨[], true, true, .exited, [], []⟩, true, true, .returned⟩ rfl rfl rfl rfl).2
  exact ⟨_, _, rfl, rfl, (hdrains ⟨by decide, by decide⟩).1⟩

/-- A record that is in the channel while the loop waits is never sent. -/
theorem report_lost :
    ¬ ∀ (nodeId : Text) (before between after : List ReporterTaskEvent) (called cancelling stopped : ReporterTasks),
      exec (ReporterTasks.step nodeId) .started before = some called → called.stop = .notCalled →
      exec (ReporterTasks.step nodeId) called (.stopAsync :: between) = some cancelling →
      exec (ReporterTasks.step nodeId) cancelling (.cancel :: (after ++ [.stopReturns])) = some stopped →
      (∀ m ∈ stopped.runs.sends, m.2 = .delivered) → (∀ m ∈ stopped.logs.sends, m.2 = .delivered) →
      stopped.runs.HandedOver (reportedRuns nodeId before) ∧ stopped.logs.HandedOver (reportedLogs before) := by
  intro hall
  have hlost := hall [] [.reportRun pendingSync] []
    [.flushRuns .wake, .completeRuns, .completeLogs, .flushLogs .wake, .handshakeEnds, .heartbeatEnds]
    ⟨⟨[toProto [] pendingSync], false, false, .waiting, [toProto [] pendingSync], []⟩, .start, false, false, .notCalled⟩
    ⟨⟨[toProto [] pendingSync], false, false, .waiting, [toProto [] pendingSync], []⟩, .start, false, false, .called⟩
    ⟨⟨[toProto [] pendingSync], true, true, .exited, [toProto [] pendingSync], []⟩,
      ⟨[], true, true, .exited, [], []⟩, true, true, .returned⟩ rfl rfl rfl rfl nofun nofun
  exact absurd hlost.1.length_le (by decide)

end DuckRun.Reporting
