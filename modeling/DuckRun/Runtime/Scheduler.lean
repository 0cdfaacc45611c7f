import DuckRun.Runtime.Slots
import Mathlib.Order.Bounds.Defs
/-!
# The cron loop

`DuckRunSchedulerService.ExecuteAsync` and `SchedulerLoop.RunAsync`, which are
one loop, statement for statement. An iteration meets the leader check's answer,
the readings of the clock and, for each job it finds due, the answers of the
two halves of the slot gate; each of these is open, and calls of the
coordinator may throw. The loop keeps a record of what every iteration did.
-/

namespace DuckRun.Runtime

open DuckRun.Lib

/-! ## The cron library -/

inductive CronFormat where
  | standard
  | includeSeconds
  deriving DecidableEq, Repr

/-- `CronExpression`, in the scheduler's timezone. `parse` is `none` where
`Parse` throws. -/
structure Cronos (ε : Type) where
  parse : String → CronFormat → Option ε
  getNextOccurrence : ε → Instant → Option Instant

/-- What `GetNextOccurrence` documents, `Occurs e` being the instants that match `e`. -/
structure Cronos.Lawful {ε : Type} (cronos : Cronos ε) (Occurs : ε → Instant → Prop) : Prop where
  least : ∀ {e a next}, cronos.getNextOccurrence e a = some next → IsLeast {o | Occurs e o ∧ a < o} next
  exhausted : ∀ {e a}, cronos.getNextOccurrence e a = none → ∀ o, Occurs e o → o ≤ a

/-- `Split(' ', RemoveEmptyEntries).Length`. -/
def fieldCount (cron : String) : Nat := ((cron.toList.splitOn ' ').filter (· ≠ [])).length

def Cronos.parseCron {ε : Type} (cronos : Cronos ε) (cron : String) : Option ε :=
  cronos.parse cron (if fieldCount cron = 6 then .includeSeconds else .standard)

/-- `ComputeNext`: `null` as well where the expression does not parse. -/
def computeNext {ε : Type} (cronos : Cronos ε) (job : JobDescriptor) (after : Instant) : Option Instant :=
  (cronos.parseCron job.cron).bind fun expr => cronos.getNextOccurrence expr after

/-! ## The registry -/

/-- `JobRegistry`: no two names are equal ignoring case. -/
structure JobRegistry (fold : String → String) where
  all : List JobDescriptor
  distinct : (all.map fun job => fold job.name).Nodup

/-! ## One iteration -/

/-- `nextRuns`, by folded name. -/
abbrev NextRuns := String → Option (Option Instant)

/-- What an iteration meets. -/
structure Tick where
  /-- `IsLeaderAsync`; `none` where it throws. -/
  leaderCheck : Option Bool
  bootNow : Instant
  now : Instant
  /-- Whether the job's local tracker has a place. -/
  tryAcquire : JobDescriptor → Bool
  tryAcquireSlotAsync : JobDescriptor → Answer

/-- A failed leader check makes the node a follower for this tick. -/
def Tick.isLeader (t : Tick) : Bool := t.leaderCheck.getD false

/-- `JobSlotGate.TryAcquireAsync`: only jobs with a finite cap ask the coordinator,
whose exceptions pass through. -/
def Tick.tryAcquireAsync (t : Tick) (job : JobDescriptor) : Answer :=
  if t.tryAcquire job then
    if job.finite then t.tryAcquireSlotAsync job else .granted
  else .refused

/-- What an iteration did. -/
structure Iteration where
  tick : Tick
  /-- The jobs that were due when the `foreach` began. -/
  due : List JobDescriptor
  /-- The calls of the gate, with their answers. -/
  attempts : List (JobDescriptor × Answer)

def Iteration.Attempted (r : Iteration) (job : JobDescriptor) : Prop := job ∈ r.attempts.map Prod.fst

instance (r : Iteration) (job : JobDescriptor) : Decidable (r.Attempted job) :=
  inferInstanceAs (Decidable (job ∈ r.attempts.map Prod.fst))

inductive LoopStatus where
  | looping
  | exited
  | faulted
  deriving DecidableEq, Repr

structure Scheduler where
  nextRuns : NextRuns
  wasLeader : Bool
  stopRequested : Bool
  status : LoopStatus
  /-- Newest first. -/
  log : List Iteration

def Scheduler.start : Scheduler := ⟨fun _ => none, false, false, .looping, []⟩

/-- What a `foreach` over jobs leaves behind. -/
structure Fired where
  nextRuns : NextRuns
  attempts : List (JobDescriptor × Answer)
  threw : Bool

section Loop
variable {ε : Type} (cronos : Cronos ε) (fold : String → String)

/-- The job is not skipped by one of the `continue`s. -/
def isDue (nextRuns : NextRuns) (now : Instant) (job : JobDescriptor) : Bool :=
  job.enabled && match nextRuns (fold job.name) with
    | some (some next) => !decide (now < next)
    | _ => false

/-- The `foreach` that fires the due jobs. -/
def fireDue (t : Tick) : List JobDescriptor → NextRuns → Fired
  | [], nextRuns => ⟨nextRuns, [], false⟩
  | job :: jobs, nextRuns =>
    if isDue fold nextRuns t.now job then
      match t.tryAcquireAsync job with
      | .threw => ⟨nextRuns, [(job, .threw)], true⟩
      | answer =>
        let rest := fireDue t jobs (Function.update nextRuns (fold job.name) (some (computeNext cronos job t.now)))
        { rest with attempts := (job, answer) :: rest.attempts }
    else fireDue t jobs nextRuns

/-- The table a new leader starts from. -/
def boot (bootNow : Instant) : List JobDescriptor → NextRuns → NextRuns
  | [], nextRuns => nextRuns
  | job :: jobs, nextRuns =>
    boot bootNow jobs (Function.update nextRuns (fold job.name) (some (computeNext cronos job bootNow)))

variable (registry : JobRegistry fold)

/-- The table in which an iteration looks for due jobs. -/
def Scheduler.tableAt (s : Scheduler) (t : Tick) : NextRuns :=
  if t.isLeader && !s.wasLeader then boot cronos fold t.bootNow registry.all (fun _ => none) else s.nextRuns

/-- The jobs an iteration finds due. -/
def Scheduler.dueJobs (s : Scheduler) (t : Tick) : List JobDescriptor :=
  if t.isLeader then registry.all.filter (isDue fold (s.tableAt cronos fold registry t) t.now) else []

/-- The body of the `while`. -/
def Scheduler.iterate (s : Scheduler) (t : Tick) : Scheduler :=
  let nextRuns := s.tableAt cronos fold registry t
  if t.isLeader then
    let fired := fireDue cronos fold t registry.all nextRuns
    { s with
      nextRuns := fired.nextRuns
      wasLeader := true
      status := if fired.threw then .faulted else .looping
      log := ⟨t, s.dueJobs cronos fold registry t, fired.attempts⟩ :: s.log }
  else { s with nextRuns := nextRuns, wasLeader := false, log := ⟨t, [], []⟩ :: s.log }

inductive LoopEvent where
  /-- The loop comes round. -/
  | iterate (t : Tick)
  /-- The stopping token is cancelled. -/
  | stop

/-- Nothing happens once the loop is over. A stop is seen at the `while` and
during the delays. -/
def Scheduler.step (s : Scheduler) : LoopEvent → Option Scheduler
  | .iterate t =>
    match s.status with
    | .looping =>
      if s.stopRequested then some { s with status := .exited } else some (s.iterate cronos fold registry t)
    | _ => some s
  | .stop => some { s with stopRequested := true }

/-- `DuckRunSchedulerService.ExecuteAsync`. -/
def DuckRunSchedulerService.executeAsync : Scheduler → LoopEvent → Option Scheduler :=
  Scheduler.step cronos fold registry

/-- `SchedulerLoop.RunAsync`. -/
def SchedulerLoop.runAsync : Scheduler → LoopEvent → Option Scheduler := Scheduler.step cronos fold registry

/-- One of the two packages' loops. -/
def IsCronLoop (loop : Scheduler → LoopEvent → Option Scheduler) : Prop :=
  loop = DuckRunSchedulerService.executeAsync cronos fold registry ∨ loop = SchedulerLoop.runAsync cronos fold registry

variable {cronos fold registry} in
theorem IsCronLoop.eq_step {loop : Scheduler → LoopEvent → Option Scheduler} (h : IsCronLoop cronos fold registry loop) :
    loop = Scheduler.step cronos fold registry := by
  rcases h with h | h <;> exact h

end Loop

/-! ## The `foreach` -/

section Fire
variable {ε : Type} {cronos : Cronos ε} {fold : String → String}

theorem computeNext_eq_some {job : JobDescriptor} {after next : Instant} :
    computeNext cronos job after = some next ↔
      ∃ expr, cronos.parseCron job.cron = some expr ∧ cronos.getNextOccurrence expr after = some next :=
  Option.bind_eq_some_iff

theorem isDue_iff {nextRuns : NextRuns} {now : Instant} {job : JobDescriptor} :
    isDue fold nextRuns now job = true ↔
      job.enabled = true ∧ ∃ next, nextRuns (fold job.name) = some (some next) ∧ next ≤ now := by
  unfold isDue
  rw [Bool.and_eq_true]
  refine and_congr_right fun _ => ?_
  cases nextRuns (fold job.name) with
  | none => simp
  | some entry => cases entry <;> simp

/-- Only a job's own entry decides whether it is due. -/
theorem isDue_congr {nextRuns nextRuns' : NextRuns} {now : Instant} {job : JobDescriptor}
    (h : nextRuns (fold job.name) = nextRuns' (fold job.name)) :
    isDue fold nextRuns now job = isDue fold nextRuns' now job := by
  unfold isDue
  rw [h]

theorem isDue_update_of_ne {nextRuns : NextRuns} {now : Instant} {job other : JobDescriptor}
    {entry : Option (Option Instant)} (h : fold job.name ≠ fold other.name) :
    isDue fold (Function.update nextRuns (fold other.name) entry) now job = isDue fold nextRuns now job := by
  apply isDue_congr
  exact Function.update_of_ne h _ _

theorem filter_isDue_update {nextRuns : NextRuns} {now : Instant} {job : JobDescriptor} {jobs : List JobDescriptor}
    {entry : Option (Option Instant)} (h : fold job.name ∉ jobs.map fun job => fold job.name) :
    jobs.filter (isDue fold (Function.update nextRuns (fold job.name) entry) now) =
      jobs.filter (isDue fold nextRuns now) := by
  apply List.filter_congr
  intro other hother
  apply isDue_update_of_ne
  intro heq
  exact h (heq ▸ List.mem_map_of_mem hother)

variable {t : Tick}

/-- The gate throws only where it asks the coordinator and the coordinator throws. -/
theorem tryAcquireAsync_threw {job : JobDescriptor} :
    t.tryAcquireAsync job = .threw ↔
      t.tryAcquire job = true ∧ job.finite = true ∧ t.tryAcquireSlotAsync job = .threw := by
  unfold Tick.tryAcquireAsync
  split <;> rename_i hlocal
  · split <;> rename_i hfinite <;> simp [hlocal, hfinite]
  · simp [hlocal]

/-- A due job whose acquisition returns is attempted and gets a new entry. -/
theorem fireDue_cons_due {job : JobDescriptor} {jobs : List JobDescriptor} {nextRuns : NextRuns}
    (hdue : isDue fold nextRuns t.now job = true) (hret : t.tryAcquireAsync job ≠ .threw) :
    fireDue cronos fold t (job :: jobs) nextRuns =
      let rest := fireDue cronos fold t jobs
        (Function.update nextRuns (fold job.name) (some (computeNext cronos job t.now)))
      { rest with attempts := (job, t.tryAcquireAsync job) :: rest.attempts } := by
  rw [fireDue, if_pos hdue]
  cases hans : t.tryAcquireAsync job with
  | threw => exact absurd hans hret
  | granted => rfl
  | refused => rfl

theorem fireDue_cons_skip {job : JobDescriptor} {jobs : List JobDescriptor} {nextRuns : NextRuns}
    (hdue : ¬ isDue fold nextRuns t.now job = true) :
    fireDue cronos fold t (job :: jobs) nextRuns = fireDue cronos fold t jobs nextRuns := by
  rw [fireDue, if_neg hdue]

/-- The attempts of a `foreach` in which no acquisition throws are the due jobs. -/
theorem fireDue_attempts {jobs : List JobDescriptor} {nextRuns : NextRuns}
    (hdistinct : (jobs.map fun job => fold job.name).Nodup)
    (hret : ∀ job ∈ jobs.filter (isDue fold nextRuns t.now), t.tryAcquireAsync job ≠ .threw) :
    (fireDue cronos fold t jobs nextRuns).threw = false ∧
      (fireDue cronos fold t jobs nextRuns).attempts =
        (jobs.filter (isDue fold nextRuns t.now)).map fun job => (job, t.tryAcquireAsync job) := by
  induction jobs generalizing nextRuns with
  | nil => exact ⟨rfl, rfl⟩
  | cons job jobs ih =>
    rw [List.map_cons, List.nodup_cons] at hdistinct
    by_cases hdue : isDue fold nextRuns t.now job = true
    · rw [List.filter_cons_of_pos hdue, List.forall_mem_cons] at hret
      rw [fireDue_cons_due hdue hret.1, List.filter_cons_of_pos hdue]
      -- The write to the job's own entry leaves the others due as they were.
      have hrest := @ih (Function.update nextRuns (fold job.name) (some (computeNext cronos job t.now))) hdistinct.2
      rw [filter_isDue_update hdistinct.1] at hrest
      obtain ⟨hthrew, hatt⟩ := hrest hret.2
      exact ⟨hthrew, congrArg (List.cons (job, t.tryAcquireAsync job)) hatt⟩
    · rw [List.filter_cons_of_neg hdue] at hret ⊢
      rw [fireDue_cons_skip hdue]
      exact ih hdistinct.2 hret

/-- One due job whose acquisition throws is enough for the `foreach` to throw. -/
theorem fireDue_threw {jobs : List JobDescriptor} {nextRuns : NextRuns}
    (hdistinct : (jobs.map fun job => fold job.name).Nodup)
    (h : ∃ job ∈ jobs.filter (isDue fold nextRuns t.now), t.tryAcquireAsync job = .threw) :
    (fireDue cronos fold t jobs nextRuns).threw = true := by
  induction jobs generalizing nextRuns with
  | nil =>
    obtain ⟨job, hjob, -⟩ := h
    cases hjob
  | cons job jobs ih =>
    rw [List.map_cons, List.nodup_cons] at hdistinct
    by_cases hdue : isDue fold nextRuns t.now job = true
    · by_cases hret : t.tryAcquireAsync job = .threw
      · rw [fireDue, if_pos hdue, hret]
      · rw [fireDue_cons_due hdue hret]
        apply ih hdistinct.2
        -- The entry just written is of another name, so the rest of the jobs are due as before.
        rw [filter_isDue_update hdistinct.1]
        rw [List.filter_cons_of_pos hdue] at h
        obtain ⟨other, hother, hthrew⟩ := h
        rcases List.mem_cons.1 hother with rfl | hother
        · exact absurd hthrew hret
        · exact ⟨other, hother, hthrew⟩
    · rw [List.filter_cons_of_neg hdue] at h
      rw [fireDue_cons_skip hdue]
      exact ih hdistinct.2 h

/-- An entry no job of the list owns stays. -/
theorem fireDue_nextRuns_other {jobs : List JobDescriptor} {nextRuns : NextRuns} {key : String}
    (hkey : key ∉ jobs.map fun job => fold job.name) :
    (fireDue cronos fold t jobs nextRuns).nextRuns key = nextRuns key := by
  induction jobs generalizing nextRuns with
  | nil => rfl
  | cons job jobs ih =>
    rw [List.map_cons, List.mem_cons, not_or] at hkey
    by_cases hdue : isDue fold nextRuns t.now job = true
    · by_cases hret : t.tryAcquireAsync job = .threw
      · rw [fireDue, if_pos hdue, hret]
      · rw [fireDue_cons_due hdue hret]
        exact (ih hkey.2).trans (Function.update_of_ne hkey.1 _ _)
    · rw [fireDue_cons_skip hdue]
      exact ih hkey.2

/-- Whatever the gate answers, an attempted job's entry is computed from the tick's reading. -/
theorem fireDue_nextRuns {jobs : List JobDescriptor} {nextRuns : NextRuns}
    (hdistinct : (jobs.map fun job => fold job.name).Nodup)
    (hret : ∀ job ∈ jobs.filter (isDue fold nextRuns t.now), t.tryAcquireAsync job ≠ .threw)
    {job : JobDescriptor} (hjob : job ∈ jobs) :
    (fireDue cronos fold t jobs nextRuns).nextRuns (fold job.name) =
      if isDue fold nextRuns t.now job then some (computeNext cronos job t.now) else nextRuns (fold job.name) := by
  induction jobs generalizing nextRuns with
  | nil => cases hjob
  | cons other jobs ih =>
    rw [List.map_cons, List.nodup_cons] at hdistinct
    by_cases hdue : isDue fold nextRuns t.now other = true
    · rw [List.filter_cons_of_pos hdue, List.forall_mem_cons] at hret
      rw [fireDue_cons_due hdue hret.1]
      dsimp only
      rcases List.mem_cons.1 hjob with rfl | hjob
      · rw [fireDue_nextRuns_other hdistinct.1, Function.update_self, if_pos hdue]
      · have hne : fold job.name ≠ fold other.name := by
          intro heq
          exact hdistinct.1 (heq ▸ List.mem_map_of_mem hjob)
        have hrest := @ih (Function.update nextRuns (fold other.name) (some (computeNext cronos other t.now))) hdistinct.2
        rw [filter_isDue_update hdistinct.1] at hrest
        rw [hrest hret.2 hjob, isDue_update_of_ne hne, Function.update_of_ne hne]
    · rw [List.filter_cons_of_neg hdue] at hret
      rw [fireDue_cons_skip hdue]
      rcases List.mem_cons.1 hjob with rfl | hjob
      · rw [fireDue_nextRuns_other hdistinct.1, if_neg hdue]
      · exact ih hdistinct.2 hret hjob

theorem boot_other {bootNow : Instant} {jobs : List JobDescriptor} {nextRuns : NextRuns} {key : String}
    (hkey : key ∉ jobs.map fun job => fold job.name) :
    boot cronos fold bootNow jobs nextRuns key = nextRuns key := by
  induction jobs generalizing nextRuns with
  | nil => rfl
  | cons job jobs ih =>
    rw [List.map_cons, List.mem_cons, not_or] at hkey
    rw [boot, ih hkey.2, Function.update_of_ne hkey.1]

/-- A new leader's table holds every job's first occurrence after the boot reading. -/
theorem boot_entry {bootNow : Instant} {jobs : List JobDescriptor} {nextRuns : NextRuns}
    (hdistinct : (jobs.map fun job => fold job.name).Nodup) {job : JobDescriptor} (hjob : job ∈ jobs) :
    boot cronos fold bootNow jobs nextRuns (fold job.name) = some (computeNext cronos job bootNow) := by
  induction jobs generalizing nextRuns with
  | nil => cases hjob
  | cons other jobs ih =>
    rw [List.map_cons, List.nodup_cons] at hdistinct
    rcases List.mem_cons.1 hjob with rfl | hjob
    · rw [boot, boot_other hdistinct.1, Function.update_self]
    · exact ih hdistinct.2 hjob

/-! ## One iteration of the loop -/

variable {registry : JobRegistry fold}

theorem mem_dueJobs {s : Scheduler} {job : JobDescriptor} :
    job ∈ s.dueJobs cronos fold registry t ↔
      t.isLeader = true ∧ job ∈ registry.all ∧ isDue fold (s.tableAt cronos fold registry t) t.now job = true := by
  unfold Scheduler.dueJobs
  split <;> rename_i hleader
  · simp [hleader]
  · simp [hleader]

/-- A leader tick whose acquisitions return attempts every due job, with the gate's answer. -/
theorem iterate_returns {s : Scheduler} (hleader : t.isLeader = true)
    (hret : ∀ job ∈ s.dueJobs cronos fold registry t, t.tryAcquireAsync job ≠ .threw) :
    s.iterate cronos fold registry t =
      { s with
        nextRuns := (fireDue cronos fold t registry.all (s.tableAt cronos fold registry t)).nextRuns
        wasLeader := true
        status := .looping
        log := ⟨t, s.dueJobs cronos fold registry t,
          (s.dueJobs cronos fold registry t).map fun job => (job, t.tryAcquireAsync job)⟩ :: s.log } := by
  have hdue : s.dueJobs cronos fold registry t =
      registry.all.filter (isDue fold (s.tableAt cronos fold registry t) t.now) := if_pos hleader
  rw [hdue] at hret ⊢
  obtain ⟨hthrew, hatt⟩ := @fireDue_attempts _ cronos _ _ _ _ registry.distinct hret
  simp only [Scheduler.iterate, hleader, if_true, hthrew, hatt, hdue]
  rfl

/-- A leader tick in which a due job's acquisition throws ends the loop. -/
theorem iterate_throws {s : Scheduler} {job : JobDescriptor}
    (hjob : job ∈ s.dueJobs cronos fold registry t) (hthrew : t.tryAcquireAsync job = .threw) :
    (s.iterate cronos fold registry t).status = .faulted := by
  obtain ⟨hleader, hmem, hdue⟩ := mem_dueJobs.1 hjob
  have hfired := @fireDue_threw _ cronos _ _ _ _ registry.distinct ⟨job, List.mem_filter.2 ⟨hmem, hdue⟩, hthrew⟩
  simp only [Scheduler.iterate, hleader, if_true, hfired]

theorem iterate_follower {s : Scheduler} (hleader : t.isLeader = false) :
    s.iterate cronos fold registry t =
      { s with
        nextRuns := s.tableAt cronos fold registry t
        wasLeader := false
        log := ⟨t, [], []⟩ :: s.log } := by
  unfold Scheduler.iterate
  rw [hleader]
  rfl

theorem attempted_map {jobs : List JobDescriptor} {due : List JobDescriptor} {job : JobDescriptor} :
    (Iteration.mk t due (jobs.map fun job => (job, t.tryAcquireAsync job))).Attempted job ↔ job ∈ jobs := by
  unfold Iteration.Attempted
  rw [List.map_map]
  exact Iff.of_eq (congrArg (job ∈ ·) (List.map_id jobs))

end Fire

/-! ## A registry to compute with -/

/-- Two of the periods a cron expression can have. -/
inductive Period where
  | second
  | minute
  deriving DecidableEq, Repr

def Period.ticks : Period → Int
  | .second => 10000000
  | .minute => 600000000

/-- The cron library on the two expressions with these periods. -/
def cronosOfPeriods : Cronos Period where
  parse cron format :=
    if cron = "* * * * *" ∧ format = .standard then some .minute
    else if cron = "* * * * * *" ∧ format = .includeSeconds then some .second
    else none
  getNextOccurrence period after := some ((after / period.ticks + 1) * period.ticks)

def everyMinute : JobDescriptor :=
  ⟨"sync", "* * * * *", "Jobs", ⟨"Sync", true, []⟩, 1, none, true, true⟩

def everyMinuteRegistry : JobRegistry id := ⟨[everyMinute], by decide⟩

/-- A leader tick a minute after the epoch. -/
def minuteTick (answer : Answer) : Tick := ⟨some true, 0, 600000000, fun _ => true, fun _ => answer⟩

end DuckRun.Runtime
