import DuckRun.Runtime.Scheduler
/-!
# The cron loop and a coordinator that throws

A leader check that throws costs the node one tick. A slot acquisition that
throws leaves the `foreach`, and the loop with it: the exception passes the
gate, and around the `while` there is only a `finally`.
-/

namespace DuckRun.Runtime

open DuckRun.Lib

/-- The loop goes on, and every leader tick attempted all its due jobs. -/
structure Scheduler.Survived (s : Scheduler) : Prop where
  looping : s.status = .looping
  attempted : ∀ r ∈ s.log, ∀ job ∈ r.due, r.Attempted job

section Failures
variable {ε : Type} (cronos : Cronos ε) (fold : String → String) (registry : JobRegistry fold)

/-- No slot acquisition the iteration comes to throws: where a due job with a
finite cap finds a local place, the coordinator answers. -/
def SlotCallsReturn (s : Scheduler) : LoopEvent → Prop
  | .iterate t =>
    s.status = .looping → ∀ job ∈ s.dueJobs cronos fold registry t,
      t.tryAcquire job = true → job.finite = true → t.tryAcquireSlotAsync job ≠ .threw
  | .stop => True

variable {cronos fold registry}

theorem slotCallsReturn_iff {s : Scheduler} {t : Tick} (hloop : s.status = .looping) :
    SlotCallsReturn cronos fold registry s (.iterate t) ↔
      ∀ job ∈ s.dueJobs cronos fold registry t, t.tryAcquireAsync job ≠ .threw := by
  constructor
  · intro h job hjob hthrew
    obtain ⟨hlocal, hfinite, hremote⟩ := tryAcquireAsync_threw.1 hthrew
    exact h hloop job hjob hlocal hfinite hremote
  · intro h _ job hjob hlocal hfinite hremote
    exact h job hjob (tryAcquireAsync_threw.2 ⟨hlocal, hfinite, hremote⟩)

/-- What one iteration keeps. -/
theorem survived_iterate {s : Scheduler} {t : Tick} (h : s.Survived) :
    (s.iterate cronos fold registry t).Survived ↔ SlotCallsReturn cronos fold registry s (.iterate t) := by
  rw [slotCallsReturn_iff h.looping]
  by_cases hret : ∀ job ∈ s.dueJobs cronos fold registry t, t.tryAcquireAsync job ≠ .threw
  · refine iff_of_true ?_ hret
    cases hleader : t.isLeader with
    | true =>
      rw [iterate_returns hleader hret]
      refine { looping := rfl, attempted := List.forall_mem_cons.2 ⟨fun job hjob => ?_, h.attempted⟩ }
      exact attempted_map.2 hjob
    | false =>
      rw [iterate_follower hleader]
      refine { looping := h.looping, attempted := List.forall_mem_cons.2 ⟨fun job hjob => ?_, h.attempted⟩ }
      cases hjob
  · refine iff_of_false (fun hs => ?_) hret
    simp only [not_forall, not_not] at hret
    obtain ⟨job, hjob, hthrew⟩ := hret
    have hfaulted := iterate_throws hjob hthrew
    rw [hs.looping] at hfaulted
    cases hfaulted

theorem step_total (s : Scheduler) (e : LoopEvent) : ∃ s', s.step cronos fold registry e = some s' := by
  cases e with
  | stop => exact ⟨_, rfl⟩
  | iterate t =>
    simp only [Scheduler.step]
    split
    · split <;> exact ⟨_, rfl⟩
    · exact ⟨_, rfl⟩

/-- Only a stop is a stop request. -/
theorem stopRequested_step {s s' : Scheduler} {t : Tick} (h : s.step cronos fold registry (.iterate t) = some s') :
    s'.stopRequested = s.stopRequested := by
  simp only [Scheduler.step] at h
  split at h
  · split at h <;> cases h
    · rfl
    · unfold Scheduler.iterate
      split <;> rfl
  · cases h
    rfl

theorem survived_step {s s' : Scheduler} {t : Tick} (hstop : s.stopRequested = false)
    (h : s.step cronos fold registry (.iterate t) = some s') :
    s'.Survived ↔ s.Survived ∧ SlotCallsReturn cronos fold registry s (.iterate t) := by
  cases hstatus : s.status with
  | looping =>
    simp only [Scheduler.step, hstatus, hstop, Bool.false_eq_true, if_false] at h
    cases h
    constructor
    · intro hs
      have hold : s.Survived := by
        refine { looping := hstatus, attempted := fun r hr => hs.attempted r ?_ }
        unfold Scheduler.iterate
        split <;> exact List.mem_cons_of_mem _ hr
      exact ⟨hold, (survived_iterate hold).1 hs⟩
    · rintro ⟨hs, hret⟩
      exact (survived_iterate hs).2 hret
  | exited =>
    simp only [Scheduler.step, hstatus] at h
    cases h
    exact iff_of_false (fun hs => by cases hstatus.symm.trans hs.looping)
      fun hs => by cases hstatus.symm.trans hs.1.looping
  | faulted =>
    simp only [Scheduler.step, hstatus] at h
    cases h
    exact iff_of_false (fun hs => by cases hstatus.symm.trans hs.looping)
      fun hs => by cases hstatus.symm.trans hs.1.looping

/-- Any number of iterations, whatever they meet, finds the loop going with every
due job of every leader tick attempted exactly when no slot acquisition the loop
came to threw. -/
theorem loop_survives_iff (cronos : Cronos ε) (fold : String → String) (registry : JobRegistry fold)
    {loop : Scheduler → LoopEvent → Option Scheduler} (hloop : IsCronLoop cronos fold registry loop) (ticks : List Tick) :
    ∃ s, exec loop .start (ticks.map .iterate) = some s ∧
      (s.Survived ↔ Along loop (SlotCallsReturn cronos fold registry) .start (ticks.map .iterate)) := by
  obtain rfl := hloop.eq_step
  obtain ⟨s, hs⟩ := exec_total (@step_total _ cronos fold registry) .start (ticks.map .iterate)
  refine ⟨s, hs, ?_⟩
  apply exec_iff_along (fun s => s.stopRequested = false) Scheduler.Survived _ rfl _ hs
  · intro s e s' he hstop h
    obtain ⟨t, -, rfl⟩ := List.mem_map.1 he
    exact ⟨(stopRequested_step h).trans hstop, survived_step hstop h⟩
  · exact { looping := rfl, attempted := fun _ hr => by cases hr }

end Failures

/-! ## An acquisition that throws -/

/-- One leader tick with one job due: the coordinator throws, and the loop is over. -/
theorem failed_acquisition_ends_loop :
    ¬ ∀ (ε : Type) (cronos : Cronos ε) (fold : String → String) (registry : JobRegistry fold)
      (loop : Scheduler → LoopEvent → Option Scheduler), IsCronLoop cronos fold registry loop →
      ∀ (ticks : List Tick) (s : Scheduler), exec loop .start (ticks.map .iterate) = some s → s.Survived := by
  intro h
  have hs := h Period cronosOfPeriods id everyMinuteRegistry _ (.inl rfl) [minuteTick .threw] _ rfl
  have hfaulted : (Scheduler.iterate cronosOfPeriods id everyMinuteRegistry .start (minuteTick .threw)).status = .faulted := by
    decide +kernel
  cases hfaulted.symm.trans hs.looping

/-- A leader check that throws, and an acquisition the coordinator would fail. -/
def failedCheck : Tick := ⟨none, 0, 0, fun _ => true, fun _ => .threw⟩

/-- The loop goes on past a failed leader check and a refused acquisition. -/
theorem loop_survives_every_minute :
    ∃ s, exec (SchedulerLoop.runAsync cronosOfPeriods id everyMinuteRegistry) .start
      ([failedCheck, minuteTick .refused].map .iterate) = some s ∧ s.Survived := by
  obtain ⟨s, hs, hiff⟩ :=
    loop_survives_iff cronosOfPeriods id everyMinuteRegistry (.inr rfl) [failedCheck, minuteTick .refused]
  refine ⟨s, hs, hiff.2 ⟨fun _ job hjob => ?_, fun _ _ => ⟨fun _ job _ _ _ => ?_, fun _ _ => trivial⟩⟩⟩
  · exact absurd (mem_dueJobs.1 hjob).1 (by decide)
  · exact (by decide : Answer.refused ≠ Answer.threw)

end DuckRun.Runtime
