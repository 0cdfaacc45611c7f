import DuckRun.Lib.Machine
/-!
# The flush loop of the console stores

`EfCoreConsoleStore` and `Ef6ConsoleStore` have one loop: wait for an entry or
for the interval, read up to a batch, write it to the database, and again until
stopped. After the loop, a `finally` reads and writes one batch more. Whatever
the channel holds beyond that batch when the loop stops is lost.
-/

namespace DuckRun.Persistence

open DuckRun.Lib

inductive FlushPhase where
  /-- `Task.Run` has not started the loop yet. -/
  | queued
  /-- Before the condition of the `while`. -/
  | checking
  /-- In `WaitToReadAsync`. -/
  | waiting
  /-- In `DrainAvailable`, of the loop or of the `finally`. -/
  | draining (last : Bool)
  | flushing (last : Bool)
  | ended
  deriving DecidableEq, Repr

structure ConsoleFlush (α : Type) where
  channel : List α
  /-- `TryComplete` has been called. -/
  completed : Bool
  /-- `_stopCts` is cancelled. -/
  stopped : Bool
  phase : FlushPhase
  batch : List α
  /-- Every entry `TryWrite` took, in order. -/
  accepted : List α
  /-- The batches written to the database, in order. -/
  flushed : List (List α)

inductive ConsoleFlushEvent (α : Type) where
  | append (entry : α)
  /-- `Dispose` or `StopAsync`, its two steps. -/
  | tryComplete
  | cancel
  | start
  | check
  /-- `WaitToReadAsync` returns true, or false, or throws because the interval
  has elapsed or the loop is stopped. -/
  | ready
  | closed
  | elapsed
  | interrupted
  /-- `DrainAvailable` comes to its condition. -/
  | tryRead
  | flush

section Loop
variable {α : Type}

def ConsoleFlush.new : ConsoleFlush α := ⟨[], false, false, .queued, [], [], []⟩

/-- One step, for batches of up to `size` entries; every write to the database succeeds. -/
def ConsoleFlush.step (size : Nat) (s : ConsoleFlush α) : ConsoleFlushEvent α → Option (ConsoleFlush α)
  | .append entry =>
    if s.completed then some s
    else some { s with channel := s.channel ++ [entry], accepted := s.accepted ++ [entry] }
  | .tryComplete => some { s with completed := true }
  | .cancel => if s.completed then some { s with stopped := true } else none
  | .start => if s.phase = .queued then some { s with phase := .checking } else none
  | .check =>
    if s.phase = .checking then some { s with phase := if s.stopped then .draining true else .waiting } else none
  | .ready => if s.phase = .waiting ∧ s.channel ≠ [] then some { s with phase := .draining false } else none
  | .closed =>
    if s.phase = .waiting ∧ s.channel = [] ∧ s.completed then some { s with phase := .flushing false } else none
  | .elapsed =>
    -- The filter reads the stop token again: what it does not catch ends the loop.
    if s.phase = .waiting then some { s with phase := if s.stopped then .draining true else .flushing false } else none
  | .interrupted => if s.phase = .waiting ∧ s.stopped then some { s with phase := .draining true } else none
  | .tryRead =>
    match s.phase with
    | .draining last =>
      match s.channel with
      | [] => some { s with phase := .flushing last }
      | entry :: channel =>
        if s.batch.length < size then some { s with channel := channel, batch := s.batch ++ [entry] }
        else some { s with phase := .flushing last }
    | _ => none
  | .flush =>
    match s.phase with
    | .flushing last =>
      some { s with
        phase := if last then .ended else .checking
        batch := []
        flushed := if s.batch = [] then s.flushed else s.flushed ++ [s.batch] }
    | _ => none

/-- The loop stops with a backlog that fits into one batch. -/
def BacklogFits (size : Nat) (s : ConsoleFlush α) (e : ConsoleFlushEvent α) : Prop :=
  s.stopped = true → e = .check ∨ e = .elapsed ∨ e = .interrupted → s.channel.length ≤ size

/-! ## The loop -/

/-- In the `finally`, or past it. -/
def FlushPhase.final : FlushPhase → Bool
  | .draining last | .flushing last => last
  | .ended => true
  | .queued | .checking | .waiting => false

/-- Every entry accepted is in one batch written, in the batch being read, or in the channel, in order. -/
structure Conserved (size : Nat) (s : ConsoleFlush α) : Prop where
  conserved : s.flushed.flatten ++ (s.batch ++ s.channel) = s.accepted
  bounded : ∀ batch ∈ s.flushed, batch.length ≤ size
  batch_le : s.batch.length ≤ size
  between : s.phase = .queued ∨ s.phase = .checking ∨ s.phase = .waiting ∨ s.phase = .ended → s.batch = []
  stopped : s.stopped = true → s.completed = true
  final : s.phase.final = true → s.stopped = true

/-- Nothing is left, or will be when the loop ends. -/
def Fits (size : Nat) (s : ConsoleFlush α) : Prop :=
  match s.phase with
  | .draining true => s.batch.length + s.channel.length ≤ size
  | .flushing true | .ended => s.channel = []
  | _ => True

variable {size : Nat} {s s' : ConsoleFlush α}

theorem conserved_new : Conserved size (.new : ConsoleFlush α) where
  conserved := rfl
  bounded := nofun
  batch_le := Nat.zero_le _
  between _ := rfl
  stopped := nofun
  final := nofun

/-- A change of phase alone. -/
theorem Conserved.phase (hi : Conserved size s) {phase : FlushPhase}
    (hbetween : phase = .queued ∨ phase = .checking ∨ phase = .waiting ∨ phase = .ended → s.batch = [])
    (hfinal : phase.final = true → s.stopped = true) : Conserved size { s with phase } :=
  ⟨hi.conserved, hi.bounded, hi.batch_le, hbetween, hi.stopped, hfinal⟩

theorem conserved_tryRead (hi : Conserved size s) (h : s.step size .tryRead = some s') : Conserved size s' := by
  simp only [ConsoleFlush.step] at h
  split at h
  · rename_i last hphase
    have hfinal : last = true → s.stopped = true := fun hlast => hi.final (by rw [hphase]; exact hlast)
    split at h
    · cases h
      exact hi.phase (by simp) hfinal
    · rename_i entry channel hchannel
      split at h <;> cases h
      · refine ⟨?_, hi.bounded, ?_, by simp [hphase], hi.stopped, hi.final⟩
        · rw [← hi.conserved, hchannel]
          simp only [List.append_assoc, List.singleton_append]
        · rw [List.length_append, List.length_singleton]
          assumption
      · exact hi.phase (by simp) hfinal
  · cases h

theorem conserved_flush (hi : Conserved size s) (h : s.step size .flush = some s') : Conserved size s' := by
  simp only [ConsoleFlush.step] at h
  split at h
  · rename_i last hphase
    cases h
    have hfinal : last = true → s.stopped = true := fun hlast => hi.final (by rw [hphase]; exact hlast)
    refine ⟨?_, ?_, Nat.zero_le _, fun _ => rfl, hi.stopped, ?_⟩
    · dsimp only
      rw [← hi.conserved]
      split
      · rename_i hempty
        rw [hempty]
      · simp
    · dsimp only
      split
      · exact hi.bounded
      · intro batch hbatch
        rcases List.mem_append.1 hbatch with hold | hnew
        · exact hi.bounded batch hold
        · rw [List.mem_singleton.1 hnew]
          exact hi.batch_le
    · cases last with
      | true => exact fun _ => hfinal rfl
      | false => exact nofun
  · cases h

theorem conserved_step {e : ConsoleFlushEvent α} (hi : Conserved size s) (h : s.step size e = some s') : Conserved size s' := by
  cases e with
  | append entry =>
    simp only [ConsoleFlush.step] at h
    split at h <;> cases h
    · exact hi
    · refine { hi with conserved := ?_ }
      rw [← hi.conserved]
      simp only [List.append_assoc]
  | tryComplete =>
    cases h
    exact { hi with stopped := fun _ => rfl }
  | cancel =>
    simp only [ConsoleFlush.step] at h
    split at h <;> cases h
    exact { hi with stopped := fun _ => ‹_›, final := fun _ => rfl }
  | start =>
    simp only [ConsoleFlush.step] at h
    split at h <;> cases h
    exact hi.phase (fun _ => hi.between (.inl ‹_›)) nofun
  | check =>
    simp only [ConsoleFlush.step] at h
    split at h <;> cases h
    have hempty := hi.between (.inr (.inl ‹_›))
    refine hi.phase (fun _ => hempty) fun hfinal => ?_
    split at hfinal
    · assumption
    · cases hfinal
  | ready =>
    simp only [ConsoleFlush.step] at h
    split at h <;> cases h
    exact hi.phase (by simp) nofun
  | closed =>
    simp only [ConsoleFlush.step] at h
    split at h <;> cases h
    exact hi.phase (by simp) nofun
  | elapsed =>
    simp only [ConsoleFlush.step] at h
    split at h <;> cases h
    have hempty := hi.between (.inr (.inr (.inl ‹_›)))
    refine hi.phase (fun _ => hempty) fun hfinal => ?_
    split at hfinal
    · assumption
    · cases hfinal
  | interrupted =>
    simp only [ConsoleFlush.step] at h
    split at h <;> cases h
    rename_i hwait
    exact hi.phase (by simp) fun _ => hwait.2
  | tryRead => exact conserved_tryRead hi h
  | flush => exact conserved_flush hi h

theorem fits_of_open (h : s.phase.final = false) : Fits size s := by
  unfold Fits
  split
  · rename_i hphase
    rw [hphase] at h
    cases h
  · rename_i hphase
    rw [hphase] at h
    cases h
  · rename_i hphase
    rw [hphase] at h
    cases h
  · trivial

/-- The loop goes to the `finally`, with an empty batch. -/
theorem fits_stops {e : ConsoleFlushEvent α} (hempty : s.batch = []) (hopen : s.phase.final = false) (hstop : s.stopped = true)
    (he : e = .check ∨ e = .elapsed ∨ e = .interrupted) :
    Fits size { s with phase := .draining true } ↔ Fits size s ∧ BacklogFits size s e := by
  have hleft : Fits size { s with phase := .draining true } ↔ s.channel.length ≤ size := by
    unfold Fits
    dsimp only
    rw [hempty, List.length_nil, Nat.zero_add]
  rw [hleft]
  exact ⟨fun hfits => ⟨fits_of_open hopen, fun _ _ => hfits⟩, fun hfits => hfits.2 hstop he⟩

/-- The loop reads the stop token: it goes to the `finally`, or on. -/
theorem fits_turns {e : ConsoleFlushEvent α} {next : FlushPhase} (hempty : s.batch = []) (hopen : s.phase.final = false)
    (hnext : next.final = false) (he : e = .check ∨ e = .elapsed) :
    Fits size { s with phase := if s.stopped then .draining true else next } ↔ Fits size s ∧ BacklogFits size s e := by
  by_cases hstop : s.stopped = true
  · rw [if_pos hstop]
    exact fits_stops hempty hopen hstop (he.imp_right .inl)
  · rw [if_neg hstop]
    exact ⟨fun _ => ⟨fits_of_open hopen, fun hs => absurd hs hstop⟩, fun _ => fits_of_open hnext⟩

/-- An entry is accepted only while the loop has not stopped. -/
theorem fits_append {entry : α} (hi : Conserved size s) (h : s.step size (.append entry) = some s') :
    Fits size s' ↔ Fits size s := by
  simp only [ConsoleFlush.step] at h
  split at h <;> cases h
  · rfl
  · rename_i hopen
    have hnot : s.phase.final = false := by
      by_contra hfinal
      exact hopen (hi.stopped (hi.final (by simpa using hfinal)))
    exact ⟨fun _ => fits_of_open hnot, fun _ => fits_of_open hnot⟩

/-- In the `finally` the batch takes what the channel gives, and a full one leaves the rest there. -/
theorem fits_lastRead (hi : Conserved size s) (hphase : s.phase = .draining true) (h : s.step size .tryRead = some s') :
    Fits size s' ↔ Fits size s := by
  have hfits : Fits size s ↔ s.batch.length + s.channel.length ≤ size := by
    unfold Fits
    rw [hphase]
  have hbatch := hi.batch_le
  rw [hfits]
  simp only [ConsoleFlush.step, hphase] at h
  split at h
  · rename_i hchannel
    cases h
    unfold Fits
    dsimp only
    rw [hchannel]
    simpa using hbatch
  · rename_i entry channel hchannel
    split at h <;> cases h <;> unfold Fits
    · simp only [hchannel, List.length_append, List.length_cons, List.length_nil]
      omega
    · rename_i hfull
      simp only [hchannel, List.length_cons]
      constructor
      · nofun
      · omega

theorem fits_tryRead (hi : Conserved size s) (h : s.step size .tryRead = some s') : Fits size s' ↔ Fits size s := by
  by_cases hlast : s.phase = .draining true
  · exact fits_lastRead hi hlast h
  · simp only [ConsoleFlush.step] at h
    split at h
    · rename_i last hphase
      have hopen : s.phase.final = false := by
        cases last with
        | false => rw [hphase]; rfl
        | true => exact absurd hphase hlast
      have hgoes : (FlushPhase.flushing last).final = false := by rwa [hphase] at hopen
      refine ⟨fun _ => fits_of_open hopen, fun _ => fits_of_open ?_⟩
      split at h
      · cases h
        exact hgoes
      · split at h <;> cases h
        · exact hopen
        · exact hgoes
    · cases h

theorem fits_flush (h : s.step size .flush = some s') : Fits size s' ↔ Fits size s := by
  simp only [ConsoleFlush.step] at h
  split at h
  · rename_i last hphase
    cases h
    cases last with
    | false => exact ⟨fun _ => fits_of_open (by rw [hphase]; rfl), fun _ => fits_of_open rfl⟩
    | true =>
      unfold Fits
      rw [hphase]
      rfl
  · cases h

/-- What still fits is decided when the loop stops: past that, no entry is accepted any more. -/
theorem fits_step {e : ConsoleFlushEvent α} (hi : Conserved size s) (h : s.step size e = some s') :
    Fits size s' ↔ Fits size s ∧ BacklogFits size s e := by
  cases e with
  | append entry =>
    rw [and_iff_left (by simp [BacklogFits])]
    exact fits_append hi h
  | tryComplete =>
    rw [and_iff_left (by simp [BacklogFits])]
    cases h
    rfl
  | cancel =>
    rw [and_iff_left (by simp [BacklogFits])]
    simp only [ConsoleFlush.step] at h
    split at h <;> cases h
    rfl
  | start | ready | closed =>
    rw [and_iff_left (by simp [BacklogFits])]
    simp only [ConsoleFlush.step] at h
    split at h <;> cases h
    exact ⟨fun _ => fits_of_open (by simp_all [FlushPhase.final]), fun _ => fits_of_open rfl⟩
  | check =>
    simp only [ConsoleFlush.step] at h
    split at h <;> cases h
    rename_i hphase
    exact fits_turns (hi.between (.inr (.inl hphase))) (by rw [hphase]; rfl) rfl (.inl rfl)
  | elapsed =>
    simp only [ConsoleFlush.step] at h
    split at h <;> cases h
    rename_i hphase
    exact fits_turns (hi.between (.inr (.inr (.inl hphase)))) (by rw [hphase]; rfl) rfl (.inr rfl)
  | interrupted =>
    simp only [ConsoleFlush.step] at h
    split at h <;> cases h
    rename_i hwait
    exact fits_stops (hi.between (.inr (.inr (.inl hwait.1)))) (by rw [hwait.1]; rfl) hwait.2 (.inr (.inr rfl))
  | tryRead =>
    rw [and_iff_left (by simp [BacklogFits])]
    exact fits_tryRead hi h
  | flush =>
    rw [and_iff_left (by simp [BacklogFits])]
    exact fits_flush h

theorem conserved_exec {es : List (ConsoleFlushEvent α)} (hrun : exec (ConsoleFlush.step size) .new es = some s) : Conserved size s :=
  exec_inv (Conserved size) (fun _ _ _ => conserved_step) conserved_new hrun

/-- When the loop has ended, the batches written are the entries accepted, in
order and none above the size, exactly when the backlog at the stop fitted into one. -/
theorem flushed_all_iff (size : Nat) (es : List (ConsoleFlushEvent α)) (s : ConsoleFlush α)
    (hrun : exec (ConsoleFlush.step size) .new es = some s) (hended : s.phase = .ended) :
    (s.flushed.flatten = s.accepted ∧ ∀ batch ∈ s.flushed, batch.length ≤ size) ↔
      Along (ConsoleFlush.step size) (BacklogFits size) .new es := by
  have hi := conserved_exec hrun
  have hbatch := hi.between (.inr (.inr (.inr hended)))
  have hiff : Fits size s ↔ Along (ConsoleFlush.step size) (BacklogFits size) .new es :=
    exec_iff_along (Conserved size) (Fits size) (fun s e s' _ hi hs => ⟨conserved_step hi hs, fits_step hi hs⟩)
      conserved_new trivial hrun
  have hfits : Fits size s ↔ s.channel = [] := by
    unfold Fits
    rw [hended]
  rw [← hiff, hfits, and_iff_left hi.bounded, ← hi.conserved, hbatch, List.nil_append]
  simp

end Loop

/-- Two entries, and the store is disposed of before the loop has read one. -/
def disposedAtOnce : List (ConsoleFlushEvent String) :=
  [.append "first", .append "second", .tryComplete, .cancel, .start, .check, .tryRead, .tryRead]

theorem backlog_lost :
    ¬ ∀ (size : Nat), 1 ≤ size → ∀ (es : List (ConsoleFlushEvent String)) (s : ConsoleFlush String),
      exec (ConsoleFlush.step size) .new es = some s → s.phase = .ended → s.flushed.flatten = s.accepted := by
  intro h
  have hlost := h 1 (Nat.le_refl 1) (disposedAtOnce ++ [.flush]) _ rfl rfl
  cases hlost

theorem flushed_all_twoAtOnce :
    ∃ s, exec (ConsoleFlush.step 2) .new (disposedAtOnce ++ [.tryRead, .flush]) = some s ∧
      s.flushed.flatten = s.accepted ∧ ∀ batch ∈ s.flushed, batch.length ≤ 2 := by
  have hrun : exec (ConsoleFlush.step 2) .new (disposedAtOnce ++ [.tryRead, .flush]) =
      some ⟨[], true, true, .ended, [], ["first", "second"], [["first", "second"]]⟩ := rfl
  refine ⟨_, hrun, (flushed_all_iff 2 _ _ hrun rfl).2 ?_⟩
  -- The loop stops at its first check, with two entries in the channel.
  refine along_cons ?_ rfl <| along_cons ?_ rfl <| along_cons ?_ rfl <| along_cons ?_ rfl <| along_cons ?_ rfl <|
    along_cons (fun _ _ => Nat.le_refl 2) rfl <| along_cons ?_ rfl <| along_cons ?_ rfl <| along_cons ?_ rfl <|
    along_cons ?_ rfl trivial
  all_goals simp [BacklogFits]

end DuckRun.Persistence
