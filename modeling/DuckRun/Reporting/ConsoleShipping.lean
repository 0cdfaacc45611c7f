import DuckRun.Dashboard.ConsoleLines
import DuckRun.Reporting.Shutdown
/-!
# From a job's console to the dashboard

A line logged in a run goes into the console store of its process and into the
log channel of its reporter; the flush loop sends the channel in batches, and
`SendLogs` saves them. Processes log and flush at the same time and share the
dashboard. A batch is sent once, whatever becomes of it, so a run's console on
the dashboard never shows a line twice or out of order, and it lacks only lines
of batches that were not answered.
-/

namespace DuckRun.Reporting

open DuckRun.Lib DuckRun.Dashboard DuckRun.Logging

/-! ## Logging -/

/-- A call of `ScopedDuckRunConsole.Log`: the console's `RunId`, the clock, and the arguments. -/
structure LogCall where
  runId : Nat
  utcNow : Runtime.Instant
  level : DuckRunLogLevel
  message : Option String
  runId_lt : runId < 2 ^ 128
  utcNow_inRange : InRange utcNow

/-- `Log`: what goes to the store and to the reporter. A console without a run drops it. -/
def LogCall.entry (c : LogCall) : Option ConsoleLogEntry :=
  if c.runId = 0 then none else some ⟨c.runId, c.utcNow, c.level, c.message.getD ""⟩

structure LoggingProcess where
  store : InMemoryConsoleStore
  logs : FlushLoop LogEntry

structure Shipping where
  processes : Nat → LoggingProcess
  db : IngestDb

def Shipping.initial (db : IngestDb) : Shipping := ⟨fun _ => ⟨.new, .start⟩, db⟩

inductive ShippingEvent where
  | log (i : Nat) (call : LogCall)
  /-- A step of the loop or of the stop that neither writes nor sends. -/
  | turn (i : Nat) (e : FlushEvent LogEntry)
  /-- The dashboard handles the batch. Its answer may be lost, or the call cancelled before it comes. -/
  | sendLogs (i : Nat) (env : IngestAmbient) (accepted : Bool) (outcome : SendOutcome)
  /-- The call ends without reaching the dashboard. -/
  | sendFails (i : Nat) (cancelled : Bool)
  /-- Any other call of the service. -/
  | ingest (env : IngestAmbient) (accepted : Bool) (header : Option Text) (call : Call)

section Step
variable (chars : CharTable) (tryParse : Text → Option Guid) (header : Nat → Option Text) (maxPerRun : Nat) (maxRuns : Int)

def Shipping.flush (s : Shipping) (i : Nat) (e : FlushEvent LogEntry) : Option Shipping :=
  let p := s.processes i
  (p.logs.step 200 e).map fun logs => { s with processes := Function.update s.processes i { p with logs := logs } }

/-- `store.Append(entry)`. -/
def Shipping.append (s : Shipping) (i : Nat) (entry : ConsoleLogEntry) : Shipping :=
  let p := s.processes i
  { s with processes := Function.update s.processes i { p with store := p.store.append maxPerRun maxRuns entry } }

def Shipping.step (s : Shipping) : ShippingEvent → Option Shipping
  | .log i call =>
    match call.entry with
    | none => some s
    | some entry => (s.append maxPerRun maxRuns i entry).flush i (.tryWrite (logToProto entry))
  | .turn i e => if e.isTurn then s.flush i e else none
  | .sendLogs i env accepted outcome =>
    let (reply, db) :=
      unaryServerHandler chars tryParse env accepted s.db (header i) (.sendLogs (s.processes i).logs.phase.batch)
    if outcome = .delivered ∧ reply.succeeded = false then none
    else { s with db := db }.flush i (.sendReturns outcome)
  | .sendFails i cancelled => s.flush i (.sendReturns (if cancelled then .cancelled else .failed))
  | .ingest env accepted header call =>
    some { s with db := (unaryServerHandler chars tryParse env accepted s.db header call).2 }

end Step

/-! ## What is logged and what is shown -/

def ShippingEvent.entry (i : Nat) : ShippingEvent → Option ConsoleLogEntry
  | .log j call => if j = i then call.entry else none
  | _ => none

/-- What process `i` logged, in order. -/
def loggedBy (i : Nat) (es : List ShippingEvent) : List ConsoleLogEntry := es.filterMap (ShippingEvent.entry i)

def runGuid (runId : Nat) : Guid := BitVec.ofNat 128 runId

/-- An entry as the dashboard shows it. -/
def lineJson (entry : ConsoleLogEntry) : ConsoleLineJson :=
  ⟨entry.timestamp, (logToProto entry).level, entry.message.toList⟩

/-- The lines of a run among the entries. -/
def linesOf (runId : Nat) (entries : List ConsoleLogEntry) : List ConsoleLineJson :=
  (entries.filter fun entry => entry.runId = runId).map lineJson

/-- The lines of a run in the batches sent. -/
def linesIn (tryParse : Text → Option Guid) (runId : Nat) (sends : List (List LogEntry × SendOutcome)) : List ConsoleLineJson :=
  (sends.map Prod.fst).flatten.filterMap (LogEntry.line tryParse (runGuid runId))

/-- Only process `i` logs in the run, and no other call of the service brings a line of it. -/
def ShippingEvent.Spares (tryParse : Text → Option Guid) (i runId : Nat) : ShippingEvent → Prop
  | .log j call => call.runId = runId → j = i
  | .ingest _ _ _ (.sendLogs logs) => ∀ e ∈ logs, tryParse e.runId ≠ some (runGuid runId)
  | _ => True

/-! ## Records -/

section Records
variable {tryParse : Text → Option Guid}

theorem LogCall.entry_some {c : LogCall} {entry : ConsoleLogEntry} (h : c.entry = some entry) :
    entry.runId = c.runId ∧ entry.timestamp = c.utcNow := by
  unfold LogCall.entry at h
  split at h <;> cases h
  exact ⟨rfl, rfl⟩

theorem mem_loggedBy {i : Nat} {es : List ShippingEvent} {entry : ConsoleLogEntry} (h : entry ∈ loggedBy i es) :
    entry.runId < 2 ^ 128 ∧ InRange entry.timestamp := by
  obtain ⟨e, -, he⟩ := List.mem_filterMap.1 h
  cases e with
  | log j call =>
    simp only [ShippingEvent.entry] at he
    split at he
    · obtain ⟨hrun, htime⟩ := LogCall.entry_some he
      exact ⟨hrun ▸ call.runId_lt, htime ▸ call.utcNow_inRange⟩
    · cases he
  | turn | sendLogs | sendFails | ingest => cases he

theorem loggedBy_snoc (i : Nat) (es : List ShippingEvent) (e : ShippingEvent) :
    loggedBy i (es ++ [e]) = loggedBy i es ++ (e.entry i).toList := by
  unfold loggedBy
  rw [List.filterMap_append]
  cases h : e.entry i <;> simp [h]

theorem runGuid_inj {a b : Nat} (ha : a < 2 ^ 128) (hb : b < 2 ^ 128) : runGuid a = runGuid b ↔ a = b := by
  constructor
  · intro h
    have hnat := congrArg BitVec.toNat h
    rwa [runGuid, runGuid, BitVec.toNat_ofNat, BitVec.toNat_ofNat, Nat.mod_eq_of_lt ha, Nat.mod_eq_of_lt hb] at hnat
  · exact congrArg runGuid

theorem tryParse_logToProto (hparse : ∀ g, tryParse (guidText g).toList = some g) (entry : ConsoleLogEntry) :
    tryParse (logToProto entry).runId = some (runGuid entry.runId) := by
  simp only [logToProto]
  exact hparse (runGuid entry.runId)

/-- On the dashboard an entry is a line of its own run. -/
theorem line_logToProto (hparse : ∀ g, tryParse (guidText g).toList = some g) {entry : ConsoleLogEntry} {runId : Nat}
    (hentry : entry.runId < 2 ^ 128) (hrun : runId < 2 ^ 128) (htime : InRange entry.timestamp) :
    (logToProto entry).line tryParse (runGuid runId) = if entry.runId = runId then some (lineJson entry) else none := by
  have hstamp : toDateTime? (logToProto entry).timestamp = .ok (some entry.timestamp) := toDateTime_some htime
  rw [LogEntry.line, tryParse_logToProto hparse, hstamp]
  by_cases hsame : entry.runId = runId
  · rw [if_pos hsame, if_pos (by rw [hsame])]
    rfl
  · rw [if_neg hsame, if_neg]
    rwa [Option.some.injEq, runGuid_inj hentry hrun]

theorem lines_logToProto (hparse : ∀ g, tryParse (guidText g).toList = some g) {runId : Nat} (hrun : runId < 2 ^ 128)
    {entries : List ConsoleLogEntry} (h : ∀ entry ∈ entries, entry.runId < 2 ^ 128 ∧ InRange entry.timestamp) :
    (entries.map logToProto).filterMap (LogEntry.line tryParse (runGuid runId)) = linesOf runId entries := by
  unfold linesOf
  induction entries with
  | nil => rfl
  | cons entry entries ih =>
    obtain ⟨hentry, hentries⟩ := List.forall_mem_cons.1 h
    rw [List.map_cons, List.filterMap_cons, line_logToProto hparse hentry.1 hrun hentry.2, ih hentries]
    by_cases hsame : entry.runId = runId
    · simp [hsame]
    · simp [hsame]

end Records

/-! ## What a step does -/

section Steps
variable {chars : CharTable} {tryParse : Text → Option Guid} {header : Nat → Option Text} {maxPerRun : Nat} {maxRuns : Int}

theorem Shipping.flush_some {s s' : Shipping} {i : Nat} {e : FlushEvent LogEntry} (h : s.flush i e = some s') :
    ∃ logs, (s.processes i).logs.step 200 e = some logs ∧
      s' = { s with processes := Function.update s.processes i { s.processes i with logs := logs } } := by
  obtain ⟨logs, hlogs, rfl⟩ := Option.map_eq_some_iff.1 h
  exact ⟨logs, hlogs, rfl⟩

/-- What process `i` has of a run, and what the dashboard shows of it. -/
structure Shipped (tryParse : Text → Option Guid) (maxPerRun : Nat) (maxRuns : Int) (before : IngestDb) (projectId : Guid)
    (i runId : Nat) (entries : List ConsoleLogEntry) (s : Shipping) : Prop where
  keys : s.db.tables.apiKeys = before.tables.apiKeys
  numbered : Numbered projectId (runGuid runId) s.db.tables
  flushing : ∀ j, Flushing 200 (s.processes j).logs
  store : (s.processes i).store = .replay maxPerRun maxRuns entries.reverse
  accepted : (s.processes i).logs.accepted.Sublist (entries.map logToProto)
  whole : (s.processes i).logs.completed = false → (s.processes i).logs.accepted = entries.map logToProto
  /-- No other process has a line of the run. -/
  foreign : ∀ j, j ≠ i → ∀ e ∈ (s.processes j).logs.accepted, tryParse e.runId ≠ some (runGuid runId)
  shown : ∃ kept, kept.Sublist (s.processes i).logs.sends ∧ (delivered (s.processes i).logs.sends).Sublist kept ∧
    getConsoleAsync s.db.tables projectId (runGuid runId) = linesIn tryParse runId kept

/-- A step of one loop, with what the dashboard has made of it. -/
structure Moves (s : Shipping) (i : Nat) (e : FlushEvent LogEntry) (s' : Shipping) : Prop where
  step : (s.processes i).logs.step 200 e = some (s'.processes i).logs
  others : ∀ j, j ≠ i → s'.processes j = s.processes j

theorem flush_moves {s s' : Shipping} {i : Nat} {e : FlushEvent LogEntry} (h : s.flush i e = some s') :
    Moves s i e s' ∧ (s'.processes i).store = (s.processes i).store ∧ s'.db = s.db := by
  obtain ⟨logs, hlogs, rfl⟩ := Shipping.flush_some h
  refine ⟨⟨?_, fun j hj => ?_⟩, ?_, rfl⟩
  · simpa using hlogs
  · exact Function.update_of_ne hj _ _
  · simp

theorem Moves.flushing {s s' : Shipping} {i : Nat} {e : FlushEvent LogEntry} (hm : Moves s i e s')
    (h : ∀ j, Flushing 200 (s.processes j).logs) (j : Nat) : Flushing 200 (s'.processes j).logs := by
  by_cases hj : j = i
  · subst hj
    exact flushing_step (h j) hm.step
  · rw [hm.others j hj]
    exact h j

/-- A step of another process than the run's. -/
theorem shipped_other {before : IngestDb} {projectId : Guid} {i j runId : Nat} {entries : List ConsoleLogEntry}
    {s s' : Shipping} {e : FlushEvent LogEntry}
    (hs : Shipped tryParse maxPerRun maxRuns before projectId i runId entries s) (hm : Moves s j e s') (hj : j ≠ i)
    (haccepts : ∀ r ∈ e.accepts (s.processes j).logs, tryParse r.runId ≠ some (runGuid runId))
    (hkeys : s'.db.tables.apiKeys = s.db.tables.apiKeys) (hnumbered : Numbered projectId (runGuid runId) s'.db.tables)
    (hshown : getConsoleAsync s'.db.tables projectId (runGuid runId) = getConsoleAsync s.db.tables projectId (runGuid runId)) :
    Shipped tryParse maxPerRun maxRuns before projectId i runId entries s' := by
  have hown := hm.others i (Ne.symm hj)
  refine { keys := hkeys.trans hs.keys, numbered := hnumbered, flushing := hm.flushing hs.flushing, store := ?_,
           accepted := ?_, whole := ?_, foreign := fun k hk r hr => ?_, shown := ?_ }
  · rw [hown]
    exact hs.store
  · rw [hown]
    exact hs.accepted
  · rw [hown]
    exact hs.whole
  · by_cases hkj : k = j
    · subst hkj
      rw [(step_effects hm.step).1] at hr
      rcases List.mem_append.1 hr with hr | hr
      · exact hs.foreign k hk r hr
      · exact haccepts r hr
    · rw [hm.others k hkj] at hr
      exact hs.foreign k hk r hr
  · rw [hown, hshown]
    exact hs.shown

/-- A step of the run's process that accepts nothing. -/
theorem shipped_own {before : IngestDb} {projectId : Guid} {i runId : Nat} {entries : List ConsoleLogEntry}
    {s s' : Shipping} {e : FlushEvent LogEntry}
    (hs : Shipped tryParse maxPerRun maxRuns before projectId i runId entries s) (hm : Moves s i e s')
    (hstore : (s'.processes i).store = (s.processes i).store) (haccepts : e.accepts (s.processes i).logs = [])
    (hkeys : s'.db.tables.apiKeys = s.db.tables.apiKeys) (hnumbered : Numbered projectId (runGuid runId) s'.db.tables)
    (hshown : ∃ kept, kept.Sublist (s'.processes i).logs.sends ∧ (delivered (s'.processes i).logs.sends).Sublist kept ∧
      getConsoleAsync s'.db.tables projectId (runGuid runId) = linesIn tryParse runId kept) :
    Shipped tryParse maxPerRun maxRuns before projectId i runId entries s' := by
  obtain ⟨haccepted, -, -, hcompleted⟩ := step_effects hm.step
  rw [haccepts, List.append_nil] at haccepted
  refine { keys := hkeys.trans hs.keys, numbered := hnumbered, flushing := hm.flushing hs.flushing,
           store := hstore.trans hs.store, accepted := ?_, whole := fun hopen => ?_, foreign := fun j hj => ?_, shown := hshown }
  · rw [haccepted]
    exact hs.accepted
  · rw [haccepted]
    exact hs.whole (hcompleted hopen)
  · rw [hm.others j hj]
    exact hs.foreign j hj

theorem linesIn_snoc (runId : Nat) (sends : List (List LogEntry × SendOutcome)) (m : List LogEntry × SendOutcome) :
    linesIn tryParse runId (sends ++ [m]) = linesIn tryParse runId sends ++ m.1.filterMap (LogEntry.line tryParse (runGuid runId)) := by
  unfold linesIn
  rw [List.map_append, List.flatten_append, List.filterMap_append]
  simp

/-- A call that ends without its batch on the dashboard: nothing more is shown. -/
theorem shipped_lost {before : IngestDb} {projectId : Guid} {i runId : Nat} {entries : List ConsoleLogEntry}
    {s s' : Shipping} {outcome : SendOutcome}
    (hs : Shipped tryParse maxPerRun maxRuns before projectId i runId entries s) (hm : Moves s i (.sendReturns outcome) s')
    (hstore : (s'.processes i).store = (s.processes i).store) (hlost : outcome ≠ .delivered)
    (hkeys : s'.db.tables.apiKeys = s.db.tables.apiKeys) (hnumbered : Numbered projectId (runGuid runId) s'.db.tables)
    (hshown : getConsoleAsync s'.db.tables projectId (runGuid runId) = getConsoleAsync s.db.tables projectId (runGuid runId)) :
    Shipped tryParse maxPerRun maxRuns before projectId i runId entries s' := by
  obtain ⟨kept, hkept, hdelivered, hconsole⟩ := hs.shown
  have hsends := (step_effects hm.step).2.1
  refine shipped_own hs hm hstore rfl hkeys hnumbered ⟨kept, ?_, ?_, hshown.trans hconsole⟩
  · rw [hsends]
    exact hkept.trans (List.sublist_append_left _ _)
  · rw [hsends]
    simp only [FlushEvent.sends]
    rwa [delivered_snoc_lost _ hlost]

/-- A batch that is saved, whether or not its answer arrives. -/
theorem shipped_saved {before : IngestDb} {projectId : Guid} {i runId : Nat} {entries : List ConsoleLogEntry}
    {s s' : Shipping} {outcome : SendOutcome}
    (hs : Shipped tryParse maxPerRun maxRuns before projectId i runId entries s) (hm : Moves s i (.sendReturns outcome) s')
    (hstore : (s'.processes i).store = (s.processes i).store) (hkeys : s'.db.tables.apiKeys = s.db.tables.apiKeys)
    (hnumbered : Numbered projectId (runGuid runId) s'.db.tables)
    (hshown : getConsoleAsync s'.db.tables projectId (runGuid runId) = getConsoleAsync s.db.tables projectId (runGuid runId) ++
      (s.processes i).logs.phase.batch.filterMap (LogEntry.line tryParse (runGuid runId))) :
    Shipped tryParse maxPerRun maxRuns before projectId i runId entries s' := by
  obtain ⟨kept, hkept, hdelivered, hconsole⟩ := hs.shown
  have hsends := (step_effects hm.step).2.1
  simp only [FlushEvent.sends] at hsends
  refine shipped_own hs hm hstore rfl hkeys hnumbered ⟨kept ++ [((s.processes i).logs.phase.batch, outcome)], ?_, ?_, ?_⟩
  · rw [hsends]
    exact hkept.append (List.Sublist.refl _)
  · rw [hsends, delivered, List.filter_append]
    exact hdelivered.append List.filter_sublist
  · rw [hshown, hconsole, linesIn_snoc]

/-- A call of `Log`, in whichever process. -/
theorem log_moves {s s' : Shipping} {i : Nat} {call : LogCall} {entry : ConsoleLogEntry} (hentry : call.entry = some entry)
    (h : s.step chars tryParse header maxPerRun maxRuns (.log i call) = some s') :
    Moves s i (.tryWrite (logToProto entry)) s' ∧
      (s'.processes i).store = (s.processes i).store.append maxPerRun maxRuns entry ∧ s'.db = s.db := by
  simp only [Shipping.step, hentry] at h
  obtain ⟨hm, hstore, hdb⟩ := flush_moves h
  refine ⟨⟨?_, fun j hj => ?_⟩, ?_, hdb⟩
  · have hstep := hm.step
    simpa [Shipping.append] using hstep
  · rw [hm.others j hj]
    exact Function.update_of_ne hj _ _
  · rw [hstore]
    simp [Shipping.append]

theorem shipped_log {before : IngestDb} {projectId : Guid} {i runId : Nat} {entries : List ConsoleLogEntry}
    {s s' : Shipping} {entry : ConsoleLogEntry}
    (hs : Shipped tryParse maxPerRun maxRuns before projectId i runId entries s)
    (hm : Moves s i (.tryWrite (logToProto entry)) s')
    (hstore : (s'.processes i).store = (s.processes i).store.append maxPerRun maxRuns entry) (hdb : s'.db = s.db) :
    Shipped tryParse maxPerRun maxRuns before projectId i runId (entries ++ [entry]) s' := by
  obtain ⟨haccepted, hsends, -, hcompleted⟩ := step_effects hm.step
  simp only [FlushEvent.accepts] at haccepted
  simp only [FlushEvent.sends, List.append_nil] at hsends
  refine { keys := by rw [hdb]; exact hs.keys, numbered := by rw [hdb]; exact hs.numbered,
           flushing := hm.flushing hs.flushing, store := ?_, accepted := ?_, whole := fun hopen => ?_,
           foreign := fun j hj => ?_, shown := ?_ }
  · rw [hstore, hs.store, List.reverse_append]
    rfl
  · rw [haccepted, List.map_append]
    refine hs.accepted.append ?_
    split
    · exact List.nil_sublist _
    · exact List.Sublist.refl _
  · have hbefore := hcompleted hopen
    rw [haccepted, hs.whole hbefore, List.map_append, hbefore]
    rfl
  · rw [hm.others j hj]
    exact hs.foreign j hj
  · rw [hsends, hdb]
    exact hs.shown

/-- The batch of a loop names its times, as every entry of the channel does. -/
theorem batch_timed {loop : FlushLoop LogEntry} {entries : List ConsoleLogEntry} {runId : Nat} (hi : Flushing 200 loop)
    (h : loop.accepted.Sublist (entries.map logToProto)) : (Call.sendLogs loop.phase.batch).Timed tryParse (runGuid runId) := by
  intro e he _
  obtain ⟨entry, -, rfl⟩ := List.mem_map.1 (h.subset (batch_subset hi he))
  exact Option.some_ne_none _

/-- The dashboard handles a batch of the run's process. -/
theorem shipped_sendLogs {before : IngestDb} {apiKey : ApiKey} {i runId : Nat} {entries : List ConsoleLogEntry}
    {s s' : Shipping} {env : IngestAmbient} {accepted : Bool} {outcome : SendOutcome}
    (hkey : resolveAsync chars before.tables (header i) = .ok apiKey)
    (hs : Shipped tryParse maxPerRun maxRuns before apiKey.projectId i runId entries s)
    (h : s.step chars tryParse header maxPerRun maxRuns (.sendLogs i env accepted outcome) = some s') :
    Shipped tryParse maxPerRun maxRuns before apiKey.projectId i runId entries s' := by
  simp only [Shipping.step] at h
  split at h
  · cases h
  · rename_i hanswer
    obtain ⟨hm, hstore, hdb⟩ := flush_moves h
    dsimp only at hdb
    have hm' : Moves s i (.sendReturns outcome) s' := ⟨hm.step, hm.others⟩
    have htimed := @batch_timed tryParse _ entries runId (hs.flushing i) hs.accepted
    obtain ⟨hnumbered, hcase⟩ := @console_after_call chars tryParse env _ _ accepted s.db (header i) _ hs.numbered htimed
    have hkeys := @unaryServerHandler_apiKeys chars tryParse env accepted s.db (header i)
      (.sendLogs (s.processes i).logs.phase.batch)
    rw [← hdb] at hnumbered hcase hkeys
    have hresolves : resolveAsync chars s.db.tables (header i) = .ok apiKey := (resolveAsync_congr hs.keys).trans hkey
    rcases hcase with ⟨-, -, hshown⟩ | ⟨hnot, hshown⟩
    · exact shipped_saved hs hm' hstore hkeys hnumbered hshown
    · -- The key is the project's, so the call itself has failed.
      refine shipped_lost hs hm' hstore (fun hdelivered => hanswer ⟨hdelivered, ?_⟩) hkeys hnumbered hshown
      exact Bool.eq_false_iff.2 fun hok => hnot ⟨hok, apiKey, hresolves, rfl⟩

/-- A call that brings no line of the run: its console stays. -/
theorem console_spared {projectId : Guid} {runId : Nat} {env : IngestAmbient} {accepted : Bool} {db : IngestDb}
    {head : Option Text} {call : Call} (hn : Numbered projectId (runGuid runId) db.tables)
    (hspares : ∀ logs, call = .sendLogs logs → ∀ e ∈ logs, tryParse e.runId ≠ some (runGuid runId)) :
    Numbered projectId (runGuid runId) (unaryServerHandler chars tryParse env accepted db head call).2.tables ∧
      getConsoleAsync (unaryServerHandler chars tryParse env accepted db head call).2.tables projectId (runGuid runId) =
        getConsoleAsync db.tables projectId (runGuid runId) := by
  have htimed : call.Timed tryParse (runGuid runId) := by
    cases call with
    | sendLogs logs => exact fun e he hrun => absurd hrun (hspares logs rfl e he)
    | handshake | sendHeartbeat | sendRuns => trivial
  have hnone : call.lines tryParse (runGuid runId) = [] := by
    cases call with
    | sendLogs logs =>
      refine List.filterMap_eq_nil_iff.2 fun e he => ?_
      rw [LogEntry.line, if_neg (hspares logs rfl e he)]
    | handshake | sendHeartbeat | sendRuns => rfl
  obtain ⟨hnumbered, ⟨-, -, hshown⟩ | ⟨-, hshown⟩⟩ := @console_after_call chars tryParse env _ _ accepted db head call hn htimed
  · rw [hnone, List.append_nil] at hshown
    exact ⟨hnumbered, hshown⟩
  · exact ⟨hnumbered, hshown⟩

theorem shipped_step (hparse : ∀ g, tryParse (guidText g).toList = some g) {before : IngestDb} {apiKey : ApiKey} {i runId : Nat}
    (hrunId : runId < 2 ^ 128) (hkey : resolveAsync chars before.tables (header i) = .ok apiKey)
    {entries : List ConsoleLogEntry} {s s' : Shipping} {e : ShippingEvent}
    (hs : Shipped tryParse maxPerRun maxRuns before apiKey.projectId i runId entries s) (hspares : e.Spares tryParse i runId)
    (h : s.step chars tryParse header maxPerRun maxRuns e = some s') :
    Shipped tryParse maxPerRun maxRuns before apiKey.projectId i runId (entries ++ (e.entry i).toList) s' := by
  have hnone : entries ++ (none : Option ConsoleLogEntry).toList = entries := List.append_nil entries
  cases e with
  | log j call =>
    cases hentry : call.entry with
    | none =>
      simp only [Shipping.step, hentry] at h
      cases h
      simp only [ShippingEvent.entry, hentry, ite_self]
      rwa [hnone]
    | some entry =>
      obtain ⟨hm, hstore, hdb⟩ := log_moves hentry h
      simp only [ShippingEvent.entry, hentry]
      by_cases hj : j = i
      · subst hj
        rw [if_pos rfl]
        exact shipped_log hs hm hstore hdb
      · rw [if_neg hj, hnone]
        refine shipped_other hs hm hj (fun r hr => ?_) (by rw [hdb]) (by rw [hdb]; exact hs.numbered) (by rw [hdb])
        simp only [FlushEvent.accepts] at hr
        split at hr
        · cases hr
        · -- The other process logs in runs of its own.
          rw [List.mem_singleton.1 hr, tryParse_logToProto hparse, Ne, Option.some.injEq]
          obtain ⟨hrun, -⟩ := LogCall.entry_some hentry
          rw [runGuid_inj (hrun ▸ call.runId_lt) hrunId, hrun]
          exact fun hsame => hj (hspares hsame)
  | turn j ev =>
    simp only [ShippingEvent.entry, hnone]
    simp only [Shipping.step] at h
    split at h
    · rename_i hturn
      obtain ⟨hm, hstore, hdb⟩ := flush_moves h
      obtain ⟨haccepts, hsends⟩ := @turn_effects _ (s.processes j).logs ev hturn
      by_cases hj : j = i
      · subst hj
        refine shipped_own hs hm hstore haccepts (by rw [hdb]) (by rw [hdb]; exact hs.numbered) ?_
        rw [(step_effects hm.step).2.1, hsends, List.append_nil, hdb]
        exact hs.shown
      · refine shipped_other hs hm hj (fun r hr => ?_) (by rw [hdb]) (by rw [hdb]; exact hs.numbered) (by rw [hdb])
        rw [haccepts] at hr
        cases hr
    · cases h
  | sendLogs j env accepted outcome =>
    simp only [ShippingEvent.entry, hnone]
    by_cases hj : j = i
    · subst hj
      exact shipped_sendLogs hkey hs h
    · simp only [Shipping.step] at h
      split at h
      · cases h
      · obtain ⟨hm, hstore, hdb⟩ := flush_moves h
        dsimp only at hdb
        have hforeign : ∀ logs, Call.sendLogs (s.processes j).logs.phase.batch = .sendLogs logs →
            ∀ r ∈ logs, tryParse r.runId ≠ some (runGuid runId) := by
          rintro logs heq r hr
          cases heq
          exact hs.foreign j hj r (batch_subset (hs.flushing j) hr)
        obtain ⟨hnumbered, hshown⟩ := @console_spared chars tryParse _ _ env accepted s.db (header j) _ hs.numbered hforeign
        have hkeys := @unaryServerHandler_apiKeys chars tryParse env accepted s.db (header j)
          (.sendLogs (s.processes j).logs.phase.batch)
        rw [← hdb] at hnumbered hshown hkeys
        exact shipped_other hs ⟨hm.step, hm.others⟩ hj (fun r hr => by cases hr) hkeys hnumbered hshown
  | sendFails j cancelled =>
    simp only [ShippingEvent.entry, hnone]
    obtain ⟨hm, hstore, hdb⟩ := flush_moves h
    by_cases hj : j = i
    · subst hj
      have hlost : (if cancelled then SendOutcome.cancelled else .failed) ≠ .delivered := by cases cancelled <;> decide
      exact shipped_lost hs hm hstore hlost (by rw [hdb]) (by rw [hdb]; exact hs.numbered) (by rw [hdb])
    · exact shipped_other hs hm hj (fun r hr => by cases hr) (by rw [hdb]) (by rw [hdb]; exact hs.numbered) (by rw [hdb])
  | ingest env accepted head call =>
    simp only [ShippingEvent.entry, hnone]
    cases h
    have hforeign : ∀ logs, call = .sendLogs logs → ∀ r ∈ logs, tryParse r.runId ≠ some (runGuid runId) := by
      rintro logs rfl
      exact hspares
    obtain ⟨hnumbered, hshown⟩ := @console_spared chars tryParse _ _ env accepted s.db head call hs.numbered hforeign
    refine { keys := ?_, numbered := hnumbered, flushing := hs.flushing, store := hs.store, accepted := hs.accepted,
             whole := hs.whole, foreign := hs.foreign, shown := ?_ }
    · exact (unaryServerHandler_apiKeys accepted s.db head call).trans hs.keys
    · dsimp only
      rw [hshown]
      exact hs.shown

theorem shipped_initial {before : IngestDb} {projectId : Guid} {i runId : Nat}
    (hbelow : ∀ c ∈ before.tables.consoleLogs, c.id < before.tables.nextLogId)
    (hnew : ∀ c ∈ before.tables.consoleLogs, ¬ (c.projectId = projectId ∧ c.runId = runGuid runId)) :
    Shipped tryParse maxPerRun maxRuns before projectId i runId [] (.initial before) := by
  have hempty : before.tables.consoleLogs.filter (fun c => c.projectId = projectId && c.runId = runGuid runId) = [] := by
    refine List.filter_eq_nil_iff.2 fun c hc hboth => hnew c hc ?_
    simpa using hboth
  refine { keys := rfl, numbered := ⟨hbelow, ?_⟩, flushing := fun _ => flushing_start 200, store := rfl,
           accepted := List.Sublist.refl _, whole := fun _ => rfl, foreign := fun _ _ r hr => (by cases hr),
           shown := ⟨[], List.Sublist.refl _, List.Sublist.refl _, ?_⟩ }
  · simp only [Shipping.initial, hempty]
    exact List.Pairwise.nil
  · simp only [Shipping.initial, getConsoleAsync, hempty, List.perm_nil.1 (OrderBy.perm _ _ _)]
    rfl

/-- In every run of any number of processes that log and flush, and of the other
calls of the service, the console of a run on the dashboard shows lines its
process logged, each once and in order, among them every line of a batch that
was answered; while every batch is answered and the channel open, only what is
still to be sent is missing. The console store of the process has the last lines. -/
theorem console_reaches_dashboard (chars : CharTable) (tryParse : Text → Option Guid) (header : Nat → Option Text)
    (maxPerRun : Nat) (maxRuns : Int) (hparse : ∀ g, tryParse (guidText g).toList = some g) (before : IngestDb)
    (hbelow : ∀ c ∈ before.tables.consoleLogs, c.id < before.tables.nextLogId) (i : Nat) (apiKey : ApiKey)
    (hkey : resolveAsync chars before.tables (header i) = .ok apiKey) (runId : Nat) (hrunId : runId < 2 ^ 128)
    (hnew : ∀ c ∈ before.tables.consoleLogs, ¬ (c.projectId = apiKey.projectId ∧ c.runId = runGuid runId))
    (es : List ShippingEvent) (s : Shipping) (hspares : ∀ e ∈ es, e.Spares tryParse i runId)
    (hrun : exec (Shipping.step chars tryParse header maxPerRun maxRuns) (.initial before) es = some s) :
    let loop := (s.processes i).logs
    let lines := linesOf runId (loggedBy i es)
    let console := getConsoleAsync s.db.tables apiKey.projectId (runGuid runId)
    console.Sublist lines ∧ (linesIn tryParse runId (delivered loop.sends)).Sublist console ∧
      ((∀ m ∈ loop.sends, m.2 = .delivered) → loop.completed = false →
        console ++ loop.unsent.filterMap (LogEntry.line tryParse (runGuid runId)) = lines) ∧
      ((s.processes i).store.getForRunAsync runId).map lineJson <:+ lines := by
  intro loop lines console
  have hinv : (∀ e ∈ es, e.Spares tryParse i runId) →
      Shipped tryParse maxPerRun maxRuns before apiKey.projectId i runId (loggedBy i es) s := by
    apply exec_history (fun es s => (∀ e ∈ es, e.Spares tryParse i runId) →
      Shipped tryParse maxPerRun maxRuns before apiKey.projectId i runId (loggedBy i es) s) _ _ hrun
    · intro es s e s' ih hstep hall
      rw [loggedBy_snoc]
      exact shipped_step hparse hrunId hkey (ih fun x hx => hall x (List.mem_append_left _ hx))
        (hall e (List.mem_append_right _ (List.mem_singleton.2 rfl))) hstep
    · exact fun _ => shipped_initial hbelow hnew
  have hs := hinv hspares
  obtain ⟨kept, hkept, hdelivered, hshown⟩ := hs.shown
  have hconsole : console = linesIn tryParse runId kept := hshown
  have hlines : ((loggedBy i es).map logToProto).filterMap (LogEntry.line tryParse (runGuid runId)) = lines :=
    lines_logToProto hparse hrunId fun entry => mem_loggedBy
  have hconserved := (hs.flushing i).conserved
  refine ⟨?_, ?_, fun hall hopen => ?_, ?_⟩
  · have hsent : (kept.map Prod.fst).flatten.Sublist (loop.sends.map Prod.fst).flatten := (hkept.map Prod.fst).flatten
    have haccepted : (loop.sends.map Prod.fst).flatten.Sublist ((loggedBy i es).map logToProto) := by
      refine List.Sublist.trans ?_ hs.accepted
      rw [← hconserved]
      exact List.sublist_append_left _ _
    have hsub := (hsent.trans haccepted).filterMap (LogEntry.line tryParse (runGuid runId))
    rw [hlines] at hsub
    rw [hconsole]
    exact hsub
  · have hsub := ((hdelivered.map Prod.fst).flatten).filterMap (LogEntry.line tryParse (runGuid runId))
    exact hconsole ▸ hsub
  · -- Every batch was answered, so none was left out.
    have hdel : delivered loop.sends = loop.sends := List.filter_eq_self.2 fun m hm => by simpa using hall m hm
    have hkeptAll : kept = loop.sends := hkept.antisymm (hdel ▸ hdelivered)
    rw [hconsole, hkeptAll, linesIn, ← List.filterMap_append, ← hlines, ← hs.whole hopen]
    exact congrArg _ hconserved
  · rw [hs.store]
    exact (getForRunAsync_suffix maxPerRun maxRuns (loggedBy i es) runId).map lineJson

end Steps

/-! ## Two processes of two projects -/

def logOf (runId : Nat) (message : String) (h : runId < 2 ^ 128) : LogCall where
  runId := runId
  utcNow := 100
  level := .info
  message := some message
  runId_lt := h
  utcNow_inRange := by decide

/-- The second line of run 7 comes while the first is on its way, and run 8 of the other process logs meanwhile. -/
def twoLines : List ShippingEvent :=
  [.log 0 (logOf 7 "started" (by decide)), .turn 0 .wake, .turn 0 .tryRead, .turn 0 .tryRead,
    .log 0 (logOf 7 "done" (by decide)), .log 1 (logOf 8 "started" (by decide)), .turn 1 .wake, .turn 1 .tryRead,
    .turn 1 .tryRead, .sendLogs 1 tenantEnv true .failed, .sendLogs 0 tenantEnv true .delivered, .turn 0 .delayEnds,
    .turn 0 .wake, .turn 0 .tryRead, .turn 0 .tryRead, .sendLogs 0 tenantEnv true .delivered]

def keysOfBoth (i : Nat) : Option Text := some (if i = 0 then "k1" else "k2").toList

def runTwoLines : Option Shipping := exec (Shipping.step ascii tryParseHyphenated keysOfBoth 100 10) (.initial twoTenants) twoLines

theorem twoLines_spares : ∀ e ∈ twoLines, e.Spares tryParseHyphenated 0 7 := by
  intro e he
  fin_cases he <;> simp [ShippingEvent.Spares, logOf]

theorem console_reaches_dashboard_twoLines :
    ∃ s, runTwoLines = some s ∧ getConsoleAsync s.db.tables 1 (runGuid 7) =
      [⟨100, "Info".toList, "started".toList⟩, ⟨100, "Info".toList, "done".toList⟩] := by
  have hsome : runTwoLines.isSome = true := by decide +kernel
  have hall : runTwoLines.all (fun s => (s.processes 0).logs.sends.all (fun m => m.2 = .delivered) &&
      !(s.processes 0).logs.completed && (s.processes 0).logs.phase.batch.isEmpty && (s.processes 0).logs.channel.isEmpty) =
        true := by
    decide +kernel
  obtain ⟨s, hs⟩ := Option.isSome_iff_exists.1 hsome
  rw [hs] at hall
  simp only [Option.all_some, Bool.and_eq_true, List.all_eq_true, decide_eq_true_eq, Bool.not_eq_true', List.isEmpty_iff] at hall
  obtain ⟨⟨⟨hdelivered, hopen⟩, hbatch⟩, hchannel⟩ := hall
  obtain ⟨-, -, hwhole, -⟩ := console_reaches_dashboard ascii tryParseHyphenated keysOfBoth 100 10 tryParse_guidText twoTenants
    (fun c hc => nomatch hc) 0 keyOfOne resolveAsync_k1 7 (by decide) (fun c hc => nomatch hc) twoLines s twoLines_spares hs
  have hshown := hwhole hdelivered hopen
  rw [FlushLoop.unsent, hbatch, hchannel, List.append_nil, List.filterMap_nil, List.append_nil] at hshown
  exact ⟨s, hs, hshown⟩

end DuckRun.Reporting
