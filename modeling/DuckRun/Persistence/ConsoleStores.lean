import DuckRun.Lib.IdentityTable
import DuckRun.Logging.InMemoryConsoleStore
import DuckRun.Persistence.ConsoleFlush
/-!
# The console table

`EfCoreConsoleStore` and `Ef6ConsoleStore` write their batches to one table that
processes share, now and after a restart. A batch is one `SaveChangesAsync`: the
server numbers its rows while other processes add theirs, and commits all of
them or none. A batch that fails is dropped. `GetForRunAsync` orders by the
numbers, and that is the order in which the run logged.
-/

namespace DuckRun.Persistence

open DuckRun.Lib DuckRun.Runtime DuckRun.Logging

/-! ## Records -/

/-- `DuckRunLogLevel.ToString()`. -/
def levelName : DuckRunLogLevel → String
  | .info => "Info"
  | .warning => "Warning"
  | .error => "Error"

/-- `Enum.TryParse<DuckRunLogLevel>` of a member's name. (It also reads numbers
and lists of names, which no level is written as.) -/
def tryParseLevel (text : String) : Option DuckRunLogLevel :=
  [DuckRunLogLevel.info, .warning, .error].find? fun level => levelName level = text

structure ConsoleLogRecord where
  id : Nat
  runId : Nat
  timestamp : Instant
  level : String
  message : String
  deriving DecidableEq, Repr

/-- The record that `FlushBatchAsync` adds, under the number it gets. -/
def toConsoleRecord (entry : ConsoleLogEntry) (id : Nat) : ConsoleLogRecord where
  id := id
  runId := entry.runId
  timestamp := entry.timestamp
  level := levelName entry.level
  message := entry.message

/-- The entry that `GetForRunAsync` makes of a record. -/
def ConsoleLogRecord.entry (r : ConsoleLogRecord) : ConsoleLogEntry where
  runId := r.runId
  timestamp := r.timestamp
  level := (tryParseLevel r.level).getD .info
  message := r.message

@[simp] theorem tryParse_levelName (level : DuckRunLogLevel) : tryParseLevel (levelName level) = some level := by
  cases level <;> decide

@[simp] theorem entry_toConsoleRecord (entry : ConsoleLogEntry) (id : Nat) : (toConsoleRecord entry id).entry = entry := by
  simp [ConsoleLogRecord.entry, toConsoleRecord]

/-! ## The stores of the processes -/

/-- The flush loop of each process, and the table. -/
structure ConsoleStores where
  loops : Nat → ConsoleFlush ConsoleLogEntry
  table : IdentityTable Nat ConsoleLogRecord
  /-- The batches of a process that were committed. -/
  saved : Nat → List (List ConsoleLogEntry)

/-- The table as earlier processes left it. -/
def ConsoleStores.initial (rows : List ConsoleLogRecord) (nextId : Nat) : ConsoleStores :=
  ⟨fun _ => .new, ⟨rows, nextId, fun _ => []⟩, fun _ => []⟩

inductive ConsoleStoresEvent where
  /-- Anything a process does but for the end of a `FlushBatchAsync`. -/
  | loop (i : Nat) (e : ConsoleFlushEvent ConsoleLogEntry)
  /-- The server adds the next row of the batch. -/
  | add (i : Nat)
  /-- The batch is committed, whether or not the process hears of it. -/
  | saved (i : Nat)
  /-- `SaveChangesAsync` throws, or there is no connection. -/
  | dropped (i : Nat)

def ConsoleFlushEvent.isFlush {α : Type} : ConsoleFlushEvent α → Bool
  | .flush => true
  | _ => false

section Step
variable (size : Nat)

def ConsoleStores.turn (s : ConsoleStores) (i : Nat) (e : ConsoleFlushEvent ConsoleLogEntry) : Option ConsoleStores :=
  ((s.loops i).step size e).map fun loop => { s with loops := Function.update s.loops i loop }

def ConsoleStores.step (s : ConsoleStores) : ConsoleStoresEvent → Option ConsoleStores
  | .loop i e => if e.isFlush then none else s.turn size i e
  | .add i =>
    match (s.loops i).phase, (s.loops i).batch[(s.table.opened i).length]? with
    | .flushing _, some entry => some { s with table := s.table.insert i (toConsoleRecord entry) }
    | _, _ => none
  | .saved i =>
    let batch := (s.loops i).batch
    if (s.table.opened i).length = batch.length then
      { s with
        table := s.table.commit i
        saved := Function.update s.saved i (if batch = [] then s.saved i else s.saved i ++ [batch]) }.turn size i .flush
    else none
  | .dropped i =>
    if (s.loops i).batch = [] then none
    else { s with table := s.table.rollback i }.turn size i .flush

end Step

/-- `GetForRunAsync`. -/
def ConsoleStores.getForRunAsync (s : ConsoleStores) (runId : Nat) : List ConsoleLogEntry :=
  (s.table.select ConsoleLogRecord.id fun c => c.runId = runId).map ConsoleLogRecord.entry

/-- The entries of a run. -/
def entriesOf (runId : Nat) (entries : List ConsoleLogEntry) : List ConsoleLogEntry :=
  entries.filter fun entry => entry.runId = runId

/-- An event in which a process other than its own logs for a run, or not. -/
def ConsoleStoresEvent.Owned (owner : Nat → Nat) : ConsoleStoresEvent → Prop
  | .loop i (.append entry) => owner entry.runId = i
  | _ => True

/-! ## One process -/

section Writer
variable {size : Nat} {owner : Nat → Nat}

theorem entriesOf_append (runId : Nat) (xs ys : List ConsoleLogEntry) :
    entriesOf runId (xs ++ ys) = entriesOf runId xs ++ entriesOf runId ys := List.filter_append ..

/-- A step other than the end of a write leaves a batch that is being written alone. -/
theorem turn_effects {loop loop' : ConsoleFlush ConsoleLogEntry} {e : ConsoleFlushEvent ConsoleLogEntry}
    (h : loop.step size e = some loop') (he : e.isFlush = false) :
    loop'.flushed = loop.flushed ∧
      (∀ last, loop.phase = .flushing last → loop'.phase = loop.phase ∧ loop'.batch = loop.batch) ∧
      (loop'.accepted = loop.accepted ∨ ∃ entry, e = .append entry ∧ loop'.accepted = loop.accepted ++ [entry]) := by
  cases e with
  | append entry =>
    simp only [ConsoleFlush.step] at h
    split at h <;> cases h
    · exact ⟨rfl, fun _ _ => ⟨rfl, rfl⟩, .inl rfl⟩
    · exact ⟨rfl, fun _ _ => ⟨rfl, rfl⟩, .inr ⟨entry, rfl, rfl⟩⟩
  | tryComplete =>
    cases h
    exact ⟨rfl, fun _ _ => ⟨rfl, rfl⟩, .inl rfl⟩
  | cancel =>
    simp only [ConsoleFlush.step] at h
    split at h <;> cases h
    exact ⟨rfl, fun _ _ => ⟨rfl, rfl⟩, .inl rfl⟩
  | start | check | ready | closed | elapsed | interrupted =>
    simp only [ConsoleFlush.step] at h
    split at h <;> cases h
    exact ⟨rfl, fun last hlast => by simp_all, .inl rfl⟩
  | tryRead =>
    simp only [ConsoleFlush.step] at h
    split at h
    · rename_i hphase
      have hnot : ∀ last, loop.phase ≠ .flushing last := fun last hlast => by rw [hphase] at hlast; cases hlast
      split at h
      · cases h
        exact ⟨rfl, fun last hlast => absurd hlast (hnot last), .inl rfl⟩
      · split at h <;> cases h <;> exact ⟨rfl, fun last hlast => absurd hlast (hnot last), .inl rfl⟩
    · cases h
  | flush => cases he

theorem flush_effects {loop loop' : ConsoleFlush ConsoleLogEntry} (h : loop.step size .flush = some loop') :
    loop'.batch = [] ∧ loop'.accepted = loop.accepted ∧
      loop'.flushed = if loop.batch = [] then loop.flushed else loop.flushed ++ [loop.batch] := by
  simp only [ConsoleFlush.step] at h
  split at h <;> cases h
  exact ⟨rfl, rfl, rfl⟩

/-- A process, the rows of its open transaction and the batches it got committed. -/
structure WriterInv (size : Nat) (owner : Nat → Nat) (i : Nat) (loop : ConsoleFlush ConsoleLogEntry)
    (opened : List ConsoleLogRecord) (saved : List (List ConsoleLogEntry)) : Prop where
  conserved : Conserved size loop
  owned : ∀ entry ∈ loop.accepted, owner entry.runId = i
  added : opened.map ConsoleLogRecord.entry = loop.batch.take opened.length
  flushing : opened ≠ [] → ∃ last, loop.phase = .flushing last
  committed : saved.Sublist loop.flushed

variable {i : Nat} {loop loop' : ConsoleFlush ConsoleLogEntry} {opened : List ConsoleLogRecord}
  {saved : List (List ConsoleLogEntry)}

theorem WriterInv.batch_owned (hi : WriterInv size owner i loop opened saved) {entry : ConsoleLogEntry}
    (h : entry ∈ loop.batch) : owner entry.runId = i := by
  refine hi.owned entry ?_
  rw [← hi.conserved.conserved]
  simp [h]

theorem writerInv_turn (hi : WriterInv size owner i loop opened saved) {e : ConsoleFlushEvent ConsoleLogEntry}
    (h : loop.step size e = some loop') (he : e.isFlush = false) (howned : (ConsoleStoresEvent.loop i e).Owned owner) :
    WriterInv size owner i loop' opened saved := by
  obtain ⟨hflushed, hkept, haccepted⟩ := turn_effects h he
  refine ⟨conserved_step hi.conserved h, fun entry hentry => ?_, ?_, fun hne => ?_, hflushed ▸ hi.committed⟩
  · rcases haccepted with hsame | ⟨new, rfl, hnew⟩
    · exact hi.owned entry (hsame ▸ hentry)
    · rw [hnew, List.mem_append, List.mem_singleton] at hentry
      rcases hentry with hold | rfl
      · exact hi.owned entry hold
      · exact howned
  · by_cases hne : opened = []
    · simp [hne]
    · obtain ⟨last, hlast⟩ := hi.flushing hne
      rw [(hkept last hlast).2]
      exact hi.added
  · obtain ⟨last, hlast⟩ := hi.flushing hne
    exact ⟨last, (hkept last hlast).1.trans hlast⟩

theorem writerInv_add (hi : WriterInv size owner i loop opened saved) {last : Bool} (hphase : loop.phase = .flushing last)
    {entry : ConsoleLogEntry} (hentry : loop.batch[opened.length]? = some entry) (id : Nat) :
    WriterInv size owner i loop (opened ++ [toConsoleRecord entry id]) saved := by
  refine { hi with added := ?_, flushing := fun _ => ⟨last, hphase⟩ }
  rw [List.map_append, hi.added, List.length_append, List.length_singleton, List.take_add_one, hentry]
  simp

theorem writerInv_flush (hi : WriterInv size owner i loop opened saved) (h : loop.step size .flush = some loop')
    {saved' : List (List ConsoleLogEntry)}
    (hsaved : saved' = saved ∨ saved' = if loop.batch = [] then saved else saved ++ [loop.batch]) :
    WriterInv size owner i loop' [] saved' := by
  obtain ⟨hbatch, haccepted, hflushed⟩ := flush_effects h
  refine ⟨conserved_step hi.conserved h, haccepted ▸ hi.owned, by simp, fun hne => absurd rfl hne, ?_⟩
  rw [hflushed]
  rcases hsaved with rfl | rfl
  · split
    · exact hi.committed
    · exact hi.committed.trans (List.sublist_append_left _ _)
  · split
    · exact hi.committed
    · exact hi.committed.append_right _

theorem writerInv_new (i : Nat) : WriterInv size owner i .new [] [] :=
  ⟨conserved_new, nofun, rfl, fun hne => absurd rfl hne, List.Sublist.refl _⟩

end Writer

/-! ## The table -/

section Table
variable {size : Nat} {owner : Nat → Nat} {rows : List ConsoleLogRecord} {s s' : ConsoleStores}

/-- The rows of each run are those there were and those its process got committed. -/
structure StoresInv (size : Nat) (owner : Nat → Nat) (rows : List ConsoleLogRecord) (s : ConsoleStores) : Prop where
  writers : ∀ i, WriterInv size owner i (s.loops i) (s.table.opened i) (s.saved i)
  rising : IdentityTable.Rising ConsoleLogRecord.id (fun r => owner r.runId) s.table
  shown : ∀ runId, (s.table.rows.filter fun c => c.runId = runId).map ConsoleLogRecord.entry =
    (rows.filter fun c => c.runId = runId).map ConsoleLogRecord.entry ++ entriesOf runId (s.saved (owner runId)).flatten

/-- The entries of rows of a run. -/
theorem map_entry_filter (runId : Nat) (rows : List ConsoleLogRecord) :
    (rows.filter fun c => c.runId = runId).map ConsoleLogRecord.entry = entriesOf runId (rows.map ConsoleLogRecord.entry) := by
  rw [entriesOf, List.filter_map]
  rfl

theorem storesInv_turn (hi : StoresInv size owner rows s) {i : Nat} {e : ConsoleFlushEvent ConsoleLogEntry}
    (h : s.turn size i e = some s') (he : e.isFlush = false) (howned : (ConsoleStoresEvent.loop i e).Owned owner) :
    StoresInv size owner rows s' := by
  obtain ⟨loop, hloop, rfl⟩ := Option.map_eq_some_iff.1 h
  refine { hi with writers := fun j => ?_ }
  by_cases hj : j = i
  · subst hj
    dsimp only
    rw [Function.update_self]
    exact writerInv_turn (hi.writers j) hloop he howned
  · dsimp only
    rw [Function.update_of_ne hj]
    exact hi.writers j

theorem storesInv_add (hi : StoresInv size owner rows s) {i : Nat} {last : Bool} (hphase : (s.loops i).phase = .flushing last)
    {entry : ConsoleLogEntry} (hentry : (s.loops i).batch[(s.table.opened i).length]? = some entry) :
    StoresInv size owner rows { s with table := s.table.insert i (toConsoleRecord entry) } := by
  have howned : owner entry.runId = i := (hi.writers i).batch_owned (List.mem_of_getElem? hentry)
  refine { hi with writers := fun j => ?_, rising := hi.rising.insert (fun _ => rfl) (fun _ => howned) }
  by_cases hj : j = i
  · subst hj
    dsimp only [IdentityTable.insert]
    rw [Function.update_self]
    exact writerInv_add (hi.writers j) hphase hentry s.table.nextId
  · dsimp only [IdentityTable.insert]
    rw [Function.update_of_ne hj]
    exact hi.writers j

/-- A whole batch is committed: its rows are its entries, all of them of runs of the process. -/
theorem storesInv_saved (hi : StoresInv size owner rows s) {i : Nat}
    (hall : (s.table.opened i).length = (s.loops i).batch.length) {loop : ConsoleFlush ConsoleLogEntry}
    (hloop : (s.loops i).step size .flush = some loop) :
    StoresInv size owner rows
      { loops := Function.update s.loops i loop
        table := s.table.commit i
        saved := Function.update s.saved i
          (if (s.loops i).batch = [] then s.saved i else s.saved i ++ [(s.loops i).batch]) } where
  writers j := by
    by_cases hj : j = i
    · subst hj
      dsimp only [IdentityTable.commit]
      rw [Function.update_self, Function.update_self, Function.update_self]
      exact writerInv_flush (hi.writers j) hloop (.inr rfl)
    · dsimp only [IdentityTable.commit]
      rw [Function.update_of_ne hj, Function.update_of_ne hj, Function.update_of_ne hj]
      exact hi.writers j
  rising := hi.rising.commit i
  shown runId := by
    have hbatch : (s.table.opened i).map ConsoleLogRecord.entry = (s.loops i).batch := by
      rw [(hi.writers i).added, hall, List.take_length]
    dsimp only [IdentityTable.commit]
    rw [List.filter_append, List.map_append, hi.shown runId, map_entry_filter runId (s.table.opened i), hbatch,
      List.append_assoc]
    congr 1
    by_cases hown : owner runId = i
    · rw [hown, Function.update_self]
      split
      · rename_i hempty
        rw [hempty]
        exact List.append_nil _
      · rw [List.flatten_append, entriesOf_append, List.flatten_singleton]
    · rw [Function.update_of_ne hown]
      have hnone : entriesOf runId (s.loops i).batch = [] := by
        refine List.filter_eq_nil_iff.2 fun entry hentry hrun => hown ?_
        rw [← (hi.writers i).batch_owned hentry, of_decide_eq_true hrun]
      rw [hnone, List.append_nil]

theorem storesInv_dropped (hi : StoresInv size owner rows s) {i : Nat} {loop : ConsoleFlush ConsoleLogEntry}
    (hloop : (s.loops i).step size .flush = some loop) :
    StoresInv size owner rows { s with loops := Function.update s.loops i loop, table := s.table.rollback i } where
  writers j := by
    by_cases hj : j = i
    · subst hj
      dsimp only [IdentityTable.rollback]
      rw [Function.update_self, Function.update_self]
      exact writerInv_flush (hi.writers j) hloop (.inl rfl)
    · dsimp only [IdentityTable.rollback]
      rw [Function.update_of_ne hj, Function.update_of_ne hj]
      exact hi.writers j
  rising := hi.rising.rollback i
  shown := hi.shown

/-- What a step does to the batches that were written and those that were committed. -/
theorem storesInv_step (hi : StoresInv size owner rows s) {e : ConsoleStoresEvent} (h : s.step size e = some s')
    (howned : e.Owned owner) :
    StoresInv size owner rows s' ∧
      ∀ i, e ≠ .dropped i → s.saved i = (s.loops i).flushed → s'.saved i = (s'.loops i).flushed := by
  cases e with
  | loop i e =>
    simp only [ConsoleStores.step] at h
    split at h
    · cases h
    · rename_i hturn
      have he : e.isFlush = false := by simpa using hturn
      refine ⟨storesInv_turn hi h he howned, fun j _ hj => ?_⟩
      obtain ⟨loop, hloop, rfl⟩ := Option.map_eq_some_iff.1 h
      dsimp only
      by_cases hji : j = i
      · subst hji
        rw [Function.update_self, (turn_effects hloop he).1]
        exact hj
      · rw [Function.update_of_ne hji]
        exact hj
  | add i =>
    simp only [ConsoleStores.step] at h
    split at h
    · rename_i last entry hphase hentry
      cases h
      exact ⟨storesInv_add hi hphase hentry, fun _ _ hj => hj⟩
    · cases h
  | saved i =>
    simp only [ConsoleStores.step] at h
    split at h
    · rename_i hall
      obtain ⟨loop, hloop, rfl⟩ := Option.map_eq_some_iff.1 h
      refine ⟨storesInv_saved hi hall hloop, fun j _ hj => ?_⟩
      dsimp only
      by_cases hji : j = i
      · subst hji
        rw [Function.update_self, Function.update_self, (flush_effects hloop).2.2, hj]
      · rw [Function.update_of_ne hji, Function.update_of_ne hji]
        exact hj
    · cases h
  | dropped i =>
    simp only [ConsoleStores.step] at h
    split at h
    · cases h
    · obtain ⟨loop, hloop, rfl⟩ := Option.map_eq_some_iff.1 h
      refine ⟨storesInv_dropped hi hloop, fun j hne hj => ?_⟩
      have hji : j ≠ i := fun hji => hne (hji ▸ rfl)
      dsimp only
      rw [Function.update_of_ne hji]
      exact hj

theorem getForRunAsync_eq (hi : StoresInv size owner rows s) (runId : Nat) :
    s.getForRunAsync runId =
      (rows.filter fun c => c.runId = runId).map ConsoleLogRecord.entry ++ entriesOf runId (s.saved (owner runId)).flatten := by
  unfold ConsoleStores.getForRunAsync
  rw [hi.rising.select_eq (i := owner runId) (fun r hr => by rw [of_decide_eq_true hr]), hi.shown]

theorem storesInv_initial {nextId : Nat} (hrows : rows.Pairwise fun a b => a.id < b.id) (hids : ∀ r ∈ rows, r.id < nextId) :
    StoresInv size owner rows (.initial rows nextId) where
  writers := writerInv_new
  rising := IdentityTable.rising_of_rows hrows hids
  shown runId := by simp [ConsoleStores.initial, entriesOf]

end Table

/-- The console of a run, for every interleaving of processes that log, flush
and fail: what earlier processes left, and then the batches that its process
got committed, in the order logged. -/
theorem consoles_persisted (size : Nat) (owner : Nat → Nat) (rows : List ConsoleLogRecord) (nextId : Nat)
    (hrows : rows.Pairwise fun a b => a.id < b.id) (hids : ∀ r ∈ rows, r.id < nextId) (es : List ConsoleStoresEvent)
    (s : ConsoleStores) (hrun : exec (ConsoleStores.step size) (.initial rows nextId) es = some s)
    (howned : ∀ e ∈ es, e.Owned owner) (runId : Nat) :
    let before := (ConsoleStores.initial rows nextId).getForRunAsync runId
    let loop := s.loops (owner runId)
    -- Each committed batch is one of those that were read off the channel.
    s.getForRunAsync runId = before ++ entriesOf runId (s.saved (owner runId)).flatten ∧
      (s.saved (owner runId)).Sublist loop.flushed ∧
      -- No line twice, none out of order.
      (s.getForRunAsync runId).Sublist (before ++ entriesOf runId loop.accepted) ∧
      -- Until a batch is dropped, only what is on its way is missing, and the store in memory would show no more.
      ((∀ e ∈ es, e ≠ .dropped (owner runId)) →
        s.getForRunAsync runId ++ entriesOf runId (loop.batch ++ loop.channel) = before ++ entriesOf runId loop.accepted ∧
        ∀ (maxPerRun : Nat) (maxRuns : Int),
          (InMemoryConsoleStore.replay maxPerRun maxRuns loop.accepted.reverse).getForRunAsync runId <:+
            s.getForRunAsync runId ++ entriesOf runId (loop.batch ++ loop.channel)) := by
  intro before loop
  obtain ⟨hi, hsaved⟩ : StoresInv size owner rows s ∧
      ∀ i, (∀ e ∈ es, e ≠ .dropped i) → s.saved i = (s.loops i).flushed := by
    have hhistory := exec_history
      (fun es s => (∀ e ∈ es, e.Owned owner) → StoresInv size owner rows s ∧
        ∀ i, (∀ e ∈ es, e ≠ .dropped i) → s.saved i = (s.loops i).flushed)
      (fun es s e s' hi hs howned => by
        obtain ⟨howned, he⟩ := List.forall_mem_append.1 howned
        obtain ⟨hi, hsaved⟩ := hi howned
        obtain ⟨hnext, hstep⟩ := storesInv_step hi hs (he e (List.mem_singleton_self e))
        refine ⟨hnext, fun i hkept => ?_⟩
        obtain ⟨hkept, hlast⟩ := List.forall_mem_append.1 hkept
        exact hstep i (hlast e (List.mem_singleton_self e)) (hsaved i hkept))
      (fun _ => ⟨storesInv_initial hrows hids, fun _ _ => rfl⟩) hrun
    exact hhistory howned
  have hbefore : before = (rows.filter fun c => c.runId = runId).map ConsoleLogRecord.entry := by
    refine (getForRunAsync_eq (@storesInv_initial size owner rows nextId hrows hids) runId).trans ?_
    exact List.append_nil _
  have hshown : s.getForRunAsync runId = before ++ entriesOf runId (s.saved (owner runId)).flatten := by
    rw [hbefore]
    exact getForRunAsync_eq hi runId
  have hwriter := hi.writers (owner runId)
  have haccepted : loop.flushed.flatten ++ (loop.batch ++ loop.channel) = loop.accepted := hwriter.conserved.conserved
  refine ⟨hshown, hwriter.committed, ?_, fun hkept => ?_⟩
  · rw [hshown, ← haccepted, entriesOf_append]
    exact ((hwriter.committed.flatten.filter _).trans (List.sublist_append_left _ _)).append_left before
  · have hall : s.getForRunAsync runId ++ entriesOf runId (loop.batch ++ loop.channel) =
        before ++ entriesOf runId loop.accepted := by
      rw [hshown, hsaved _ hkept, List.append_assoc, ← entriesOf_append, haccepted]
    refine ⟨hall, fun maxPerRun maxRuns => ?_⟩
    rw [hall]
    exact (getForRunAsync_suffix maxPerRun maxRuns loop.accepted runId).trans (List.suffix_append _ _)

/-! ## Two processes -/

def earlierRow : ConsoleLogRecord := ⟨7, 5, 60, "Warning", "restarting"⟩

def lineOf (runId : Nat) : ConsoleLogEntry := ⟨runId, 100, .info, "started"⟩

/-- Process 0 logs in run 5 and process 1 in run 6. Their transactions run into each other, and that of process 1 fails. -/
def twoBatches : List ConsoleStoresEvent :=
  [.loop 0 (.append (lineOf 5)), .loop 1 (.append (lineOf 6)), .loop 0 .start, .loop 1 .start, .loop 0 .check,
    .loop 1 .check, .loop 0 .ready, .loop 1 .ready, .loop 0 .tryRead, .loop 1 .tryRead, .loop 1 .tryRead,
    .loop 0 .tryRead, .add 1, .add 0, .saved 0, .dropped 1]

def runTwoBatches : Option ConsoleStores := exec (ConsoleStores.step 100) (.initial [earlierRow] 8) twoBatches

theorem twoBatches_owned : ∀ e ∈ twoBatches, e.Owned fun runId => runId - 5 := by
  intro e he
  fin_cases he <;> first | exact rfl | exact trivial

theorem consoles_persisted_twoBatches :
    ∃ s, runTwoBatches = some s ∧ s.getForRunAsync 5 = [⟨5, 60, .warning, "restarting"⟩, lineOf 5] := by
  have hsome : runTwoBatches.isSome = true := by decide +kernel
  have hall : runTwoBatches.all (fun s =>
      (s.loops 0).accepted = [lineOf 5] ∧ (s.loops 0).batch = [] ∧ (s.loops 0).channel = []) = true := by
    decide +kernel
  obtain ⟨s, hs⟩ := Option.isSome_iff_exists.1 hsome
  rw [hs] at hall
  obtain ⟨haccepted, hbatch, hchannel⟩ := of_decide_eq_true hall
  obtain ⟨-, -, -, hkept⟩ := consoles_persisted 100 (fun runId => runId - 5) [earlierRow] 8 (List.pairwise_singleton _ _)
    (by decide) twoBatches s hs twoBatches_owned 5
  have hshown := (hkept (by simp [twoBatches])).1
  have hbefore : (ConsoleStores.initial [earlierRow] 8).getForRunAsync 5 = [⟨5, 60, .warning, "restarting"⟩] := by
    simp [ConsoleStores.getForRunAsync, ConsoleStores.initial, IdentityTable.select, OrderBy.linear, earlierRow,
      ConsoleLogRecord.entry, tryParseLevel, levelName]
  rw [hbefore, haccepted, hbatch, hchannel] at hshown
  exact ⟨s, hs, by simpa [entriesOf, lineOf] using hshown⟩

end DuckRun.Persistence
