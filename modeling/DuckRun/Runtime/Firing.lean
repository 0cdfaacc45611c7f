import DuckRun.Runtime.Scheduler
import Mathlib.Data.List.Nodup
/-!
# Which occurrences fire

The table of next runs holds, for every job, its first occurrence after the
reading of its last attempt in the leadership term, or after the reading taken
when the term began. So a job is attempted in an iteration exactly when an
occurrence lies between that reading and the iteration's own.
-/

namespace DuckRun.Runtime

open DuckRun.Lib

/-- The reading an attempt counts from, over the iterations before, newest first:
that of the job's last attempt in the leadership term, or the one taken when the
term began. -/
def since (job : JobDescriptor) (t : Tick) : List Iteration → Instant
  | [] => t.bootNow
  | r :: past =>
    if r.tick.isLeader then
      if r.Attempted job then r.tick.now else since job r.tick past
    else t.bootNow

section Firing
variable {ε : Type} (cronos : Cronos ε) (Occurs : ε → Instant → Prop)

/-- The occurrence of the job's expression lies after the reading the iteration
counts from, and not after the iteration's own. -/
def Causes (job : JobDescriptor) (r : Iteration) (past : List Iteration) (o : Instant) : Prop :=
  ∃ expr, cronos.parseCron job.cron = some expr ∧ Occurs expr o ∧ since job r.tick past < o ∧ o ≤ r.tick.now

/-- What an iteration attempts. -/
structure FiringRule (jobs : List JobDescriptor) (r : Iteration) (past : List Iteration) : Prop where
  fires : ∀ job ∈ jobs, r.Attempted job ↔
    r.tick.isLeader = true ∧ job.enabled = true ∧ ∃ o, Causes cronos Occurs job r past o
  leads : ∀ job, r.Attempted job → r.tick.isLeader = true ∧ job ∈ jobs
  once : (r.attempts.map Prod.fst).Nodup

variable {cronos Occurs}

/-- An entry has come up exactly when an occurrence lies in between. -/
theorem computeNext_come_up (hc : cronos.Lawful Occurs) {job : JobDescriptor} {after now : Instant} :
    (∃ next, computeNext cronos job after = some next ∧ next ≤ now) ↔
      ∃ o expr, cronos.parseCron job.cron = some expr ∧ Occurs expr o ∧ after < o ∧ o ≤ now := by
  constructor
  · rintro ⟨next, hnext, hle⟩
    obtain ⟨expr, hparse, hocc⟩ := computeNext_eq_some.1 hnext
    obtain ⟨⟨hoccurs, hafter⟩, -⟩ := hc.least hocc
    exact ⟨next, expr, hparse, hoccurs, hafter, hle⟩
  · rintro ⟨o, expr, hparse, hoccurs, hafter, hle⟩
    cases hocc : cronos.getNextOccurrence expr after with
    | none => exact absurd (hc.exhausted hocc o hoccurs) (Int.not_le.2 hafter)
    | some next =>
      have hfirst : next ≤ o := (hc.least hocc).2 ⟨hoccurs, hafter⟩
      exact ⟨next, computeNext_eq_some.2 ⟨expr, hparse, hocc⟩, Int.le_trans hfirst hle⟩

variable {fold : String → String} {registry : JobRegistry fold}

/-! ## The table of next runs -/

/-- Whether the newest iteration was a leader's. -/
def ledLast (log : List Iteration) : Bool := log.head?.any (·.tick.isLeader)

/-- A term that begins counts from its boot reading. -/
theorem since_of_not_led {job : JobDescriptor} {t : Tick} {log : List Iteration} (h : ledLast log = false) :
    since job t log = t.bootNow := by
  cases log with
  | nil => rfl
  | cons r past =>
    have hr : r.tick.isLeader = false := h
    rw [since, hr]
    rfl

theorem since_of_leader {job : JobDescriptor} {t : Tick} {r : Iteration} {past : List Iteration}
    (h : r.tick.isLeader = true) :
    since job t (r :: past) = if r.Attempted job then r.tick.now else since job r.tick past := by
  rw [since, if_pos h]

variable (cronos Occurs fold registry) in
structure FiringInv (s : Scheduler) : Prop where
  looping : s.status = .looping
  going : s.stopRequested = false
  led : s.wasLeader = ledLast s.log
  /-- Every entry is the first occurrence after the reading its job counts from. -/
  entry : s.wasLeader = true → ∀ job ∈ registry.all, ∀ t,
    s.nextRuns (fold job.name) = some (computeNext cronos job (since job t s.log))
  rules : ∀ post r past, s.log = post ++ r :: past → FiringRule cronos Occurs registry.all r past

theorem firingInv_start : FiringInv cronos Occurs fold registry .start where
  looping := rfl
  going := rfl
  led := rfl
  entry h := by cases h
  rules post r past h := by cases post <;> cases h

/-- The table an iteration of a leader looks into. -/
theorem tableAt_entry {s : Scheduler} (hi : FiringInv cronos Occurs fold registry s) {t : Tick}
    (hleader : t.isLeader = true) {job : JobDescriptor} (hjob : job ∈ registry.all) :
    s.tableAt cronos fold registry t (fold job.name) = some (computeNext cronos job (since job t s.log)) := by
  unfold Scheduler.tableAt
  cases hwas : s.wasLeader with
  | true =>
    rw [hleader]
    exact hi.entry hwas job hjob t
  | false =>
    rw [hleader, since_of_not_led (hi.led ▸ hwas)]
    exact boot_entry registry.distinct hjob

theorem isDue_iff_causes (hc : cronos.Lawful Occurs) {s : Scheduler} (hi : FiringInv cronos Occurs fold registry s)
    {r : Iteration} (hleader : r.tick.isLeader = true) {job : JobDescriptor} (hjob : job ∈ registry.all) :
    isDue fold (s.tableAt cronos fold registry r.tick) r.tick.now job = true ↔
      job.enabled = true ∧ ∃ o, Causes cronos Occurs job r s.log o := by
  rw [isDue_iff, tableAt_entry hi hleader hjob]
  refine and_congr_right fun _ => ?_
  have hup := @computeNext_come_up _ _ _ hc job (since job r.tick s.log) r.tick.now
  refine Iff.trans ?_ hup
  constructor
  · rintro ⟨next, hnext, hle⟩
    exact ⟨next, Option.some.inj hnext, hle⟩
  · rintro ⟨next, hnext, hle⟩
    exact ⟨next, congrArg some hnext, hle⟩

/-! ## One iteration -/

/-- The rules of a log that grew by one iteration. -/
theorem rules_cons {jobs : List JobDescriptor} {r : Iteration} {log : List Iteration}
    (hr : FiringRule cronos Occurs jobs r log)
    (hlog : ∀ post q past, log = post ++ q :: past → FiringRule cronos Occurs jobs q past) :
    ∀ post q past, r :: log = post ++ q :: past → FiringRule cronos Occurs jobs q past := by
  intro post q past h
  cases post with
  | nil =>
    cases h
    exact hr
  | cons p post =>
    obtain ⟨-, h⟩ := List.cons.inj h
    exact hlog post q past h

theorem firingInv_iterate (hc : cronos.Lawful Occurs) {s : Scheduler} (hi : FiringInv cronos Occurs fold registry s)
    {t : Tick} (hgate : ∀ job ∈ registry.all, t.tryAcquireAsync job ≠ .threw) :
    FiringInv cronos Occurs fold registry (s.iterate cronos fold registry t) := by
  cases hleader : t.isLeader with
  | false =>
    rw [iterate_follower hleader]
    refine { hi with led := ?_, entry := ?_, rules := rules_cons ?_ hi.rules }
    · exact hleader.symm
    · intro h
      cases h
    · refine ⟨fun job _ => iff_of_false List.not_mem_nil ?_, fun job h => absurd h List.not_mem_nil, List.nodup_nil⟩
      rintro ⟨h, -⟩
      cases hleader.symm.trans h
  | true =>
    rw [iterate_returns hleader fun job hjob => hgate job (mem_dueJobs.1 hjob).2.1]
    generalize hr : Iteration.mk t (s.dueJobs cronos fold registry t) _ = r
    have htick : r.tick = t := by rw [← hr]
    have hatt : ∀ job, r.Attempted job ↔ job ∈ s.dueJobs cronos fold registry t := by
      intro job
      rw [← hr]
      exact attempted_map
    have hrule : FiringRule cronos Occurs registry.all r s.log := by
      refine { fires := fun job hjob => ?_, leads := fun job h => ?_, once := ?_ }
      · rw [hatt, mem_dueJobs, htick]
        have hdue := isDue_iff_causes hc hi (r := r) (by rw [htick]; exact hleader) hjob
        rw [htick] at hdue
        rw [hdue]
        simp [hjob]
      · obtain ⟨-, hmem, -⟩ := mem_dueJobs.1 ((hatt job).1 h)
        exact ⟨by rw [htick]; exact hleader, hmem⟩
      · have hfst : r.attempts.map Prod.fst = s.dueJobs cronos fold registry t := by
          rw [← hr, List.map_map]
          exact List.map_id _
        rw [hfst, Scheduler.dueJobs, if_pos hleader]
        exact (List.Nodup.of_map _ registry.distinct).filter _
    refine { looping := rfl, going := hi.going, led := ?_, entry := ?_, rules := rules_cons hrule hi.rules }
    · exact (congrArg Tick.isLeader htick).trans hleader |>.symm
    · intro _ job hjob t'
      have hled : r.tick.isLeader = true := by rw [htick]; exact hleader
      dsimp only
      rw [fireDue_nextRuns registry.distinct (fun job h => hgate job (List.mem_filter.1 h).1) hjob, since_of_leader hled]
      -- An attempted job counts from this reading, the others from where they counted.
      by_cases hdue : isDue fold (s.tableAt cronos fold registry t) t.now job = true
      · rw [if_pos hdue, if_pos ((hatt job).2 (mem_dueJobs.2 ⟨hleader, hjob, hdue⟩)), htick]
      · have hnot : ¬ r.Attempted job := fun h => hdue (mem_dueJobs.1 ((hatt job).1 h)).2.2
        rw [if_neg hdue, if_neg hnot, tableAt_entry hi hleader hjob, htick]

theorem iterate_ticks (s : Scheduler) (t : Tick) :
    (s.iterate cronos fold registry t).log.map (·.tick) = t :: s.log.map (·.tick) := by
  unfold Scheduler.iterate
  split <;> rfl

/-- Iterations whose acquisitions return follow one another without end. -/
theorem firingInv_run (hc : cronos.Lawful Occurs) (ticks : List Tick)
    (hgate : ∀ t ∈ ticks, ∀ job ∈ registry.all, t.tryAcquireAsync job ≠ .threw) {s : Scheduler}
    (hi : FiringInv cronos Occurs fold registry s) :
    ∃ s', exec (Scheduler.step cronos fold registry) s (ticks.map .iterate) = some s' ∧
      FiringInv cronos Occurs fold registry s' ∧ s'.log.map (·.tick) = ticks.reverse ++ s.log.map (·.tick) := by
  induction ticks generalizing s with
  | nil => exact ⟨s, rfl, hi, rfl⟩
  | cons t ticks ih =>
    rw [List.forall_mem_cons] at hgate
    have hstep : s.step cronos fold registry (.iterate t) = some (s.iterate cronos fold registry t) := by
      simp only [Scheduler.step, hi.looping, hi.going, Bool.false_eq_true, if_false]
    obtain ⟨s', hs', hi', hlog⟩ := ih hgate.2 (firingInv_iterate hc hi hgate.1)
    refine ⟨s', exec_cons_some.2 ⟨_, hstep, hs'⟩, hi', ?_⟩
    rw [hlog, iterate_ticks, List.reverse_cons, List.append_assoc, List.singleton_append]

/-! ## Within a term -/

/-- An attempt of a later iteration of the term counts from no earlier a reading. -/
theorem since_of_attempted {jobs : List JobDescriptor} {log : List Iteration}
    (hrules : ∀ post r past, log = post ++ r :: past → FiringRule cronos Occurs jobs r past)
    {job : JobDescriptor} (hjob : job ∈ jobs) {q : Iteration} {past : List Iteration} (hq : q.Attempted job)
    (hlead : q.tick.isLeader = true) {mid : List Iteration} (hmid : ∀ x ∈ mid, x.tick.isLeader = true)
    (hlog : ∃ post, log = post ++ (mid ++ q :: past)) (t : Tick) :
    q.tick.now ≤ since job t (mid ++ q :: past) := by
  induction mid generalizing t with
  | nil =>
    have hnow : since job t (q :: past) = q.tick.now := by rw [since_of_leader hlead, if_pos hq]
    exact Int.le_of_eq hnow.symm
  | cons x mid ih =>
    rw [List.forall_mem_cons] at hmid
    obtain ⟨post, hpost⟩ := hlog
    have hprev := ih hmid.2 ⟨post ++ [x], by simpa using hpost⟩ x.tick
    rw [List.cons_append, since_of_leader hmid.1]
    split
    · rename_i hx
      -- An attempt in between was caused by an occurrence after the older reading.
      obtain ⟨-, -, o, expr, -, -, hafter, hle⟩ := ((hrules post x _ hpost).fires job hjob).1 hx
      exact Int.le_trans hprev (Int.le_trans (Int.le_of_lt hafter) hle)
    · exact hprev

/-- The firing rule, over any iterations of the loop in which the gate does not throw.
Each tick is one iteration. A job is attempted in it exactly when the node leads,
the job is enabled and its expression parses, and an occurrence lies after the
reading of its last attempt in the term, or of the term's beginning, and not after
this one. No job is attempted twice in an iteration, and within a term a later
attempt, whatever the gate answered the first, is caused by a later occurrence. -/
theorem cron_firing_rule (hc : cronos.Lawful Occurs) {loop : Scheduler → LoopEvent → Option Scheduler}
    (hloop : IsCronLoop cronos fold registry loop) (ticks : List Tick)
    (hgate : ∀ t ∈ ticks, ∀ job ∈ registry.all, t.tryAcquireAsync job ≠ .threw) :
    ∃ s, exec loop .start (ticks.map .iterate) = some s ∧ s.log.map (·.tick) = ticks.reverse ∧
      (∀ post r past, s.log = post ++ r :: past → FiringRule cronos Occurs registry.all r past) ∧
      ∀ post r mid q past job, s.log = post ++ r :: (mid ++ q :: past) → r.Attempted job → q.Attempted job →
        (∀ x ∈ mid, x.tick.isLeader = true) →
        ∀ o, Causes cronos Occurs job r (mid ++ q :: past) o →
          q.tick.now < o ∧ ¬ Causes cronos Occurs job q past o := by
  obtain rfl := hloop.eq_step
  obtain ⟨s, hs, hi, hlog⟩ := @firingInv_run _ _ _ fold registry hc ticks hgate _ firingInv_start
  refine ⟨s, hs, hlog.trans (List.append_nil _), hi.rules, ?_⟩
  intro post r mid q past job hsplit hr hq hmid o hcause
  have hqrule := hi.rules (post ++ r :: mid) q past (by simpa using hsplit)
  obtain ⟨hlead, hjob⟩ := hqrule.leads job hq
  have hfrom := since_of_attempted hi.rules hjob hq hlead hmid ⟨post ++ [r], by simpa using hsplit⟩ r.tick
  obtain ⟨expr, -, -, hafter, -⟩ := hcause
  have hlater : q.tick.now < o := Int.lt_of_le_of_lt hfrom hafter
  refine ⟨hlater, ?_⟩
  rintro ⟨-, -, -, -, hle⟩
  exact absurd hle (Int.not_le.2 hlater)

end Firing

/-! ## The rule at work -/

/-- The first multiple of a period after an instant. -/
theorem isLeast_next_multiple {period : Int} (hp : 0 < period) (after : Int) :
    IsLeast {o | period ∣ o ∧ after < o} ((after / period + 1) * period) := by
  refine ⟨⟨Int.dvd_mul_left _ _, Int.lt_ediv_add_one_mul_self after hp⟩, ?_⟩
  rintro _ ⟨⟨k, rfl⟩, hafter⟩
  rw [Int.mul_comm] at hafter
  have hk : after / period < k := Int.ediv_lt_of_lt_mul hp hafter
  rw [Int.mul_comm period]
  exact Int.mul_le_mul_of_nonneg_right hk (Int.le_of_lt hp)

theorem cronosOfPeriods_lawful : cronosOfPeriods.Lawful fun period o => period.ticks ∣ o where
  least := by
    intro period after next h
    obtain rfl := Option.some.inj h
    apply isLeast_next_multiple
    cases period <;> decide
  exhausted h := by cases h

theorem gate_returns (answer : Answer) (h : answer ≠ .threw) (job : JobDescriptor) :
    (minuteTick answer).tryAcquireAsync job ≠ .threw := by
  intro hthrew
  exact h (tryAcquireAsync_threw.1 hthrew).2.2

/-- A job due every minute is attempted at the first full minute of the term and,
although its slot is refused, not at a second reading of the same minute. -/
theorem every_minute_fires :
    ∃ s r q, exec (DuckRunSchedulerService.executeAsync cronosOfPeriods id everyMinuteRegistry) .start
        ([minuteTick .refused, minuteTick .granted].map .iterate) = some s ∧
      s.log = [r, q] ∧ q.Attempted everyMinute ∧ ¬ r.Attempted everyMinute := by
  have hgate : ∀ t ∈ [minuteTick .refused, minuteTick .granted], ∀ job ∈ everyMinuteRegistry.all,
      t.tryAcquireAsync job ≠ .threw := by
    intro t ht job _
    rcases List.mem_pair.1 ht with rfl | rfl
    · exact gate_returns .refused (by decide) job
    · exact gate_returns .granted (by decide) job
  obtain ⟨s, hs, hlog, hrules, hlater⟩ := cron_firing_rule cronosOfPeriods_lawful (.inl rfl) _ hgate
  obtain ⟨r, past, hpast, hr, hrest⟩ := List.map_eq_cons_iff.1 hlog
  obtain ⟨q, rest, rfl, hq, hnil⟩ := List.map_eq_cons_iff.1 hrest
  obtain rfl := List.map_eq_nil_iff.1 hnil
  have hqled : q.tick.isLeader = true := by rw [hq]; rfl
  have hattempted : q.Attempted everyMinute := by
    rw [(hrules [r] q [] hpast).fires everyMinute (by decide)]
    refine ⟨hqled, rfl, 600000000, .minute, by decide +kernel, by decide, ?_⟩
    rw [since, hq]
    decide
  refine ⟨s, r, q, hs, hpast, hattempted, fun hagain => ?_⟩
  obtain ⟨-, -, o, hcause⟩ := ((hrules [] r [q] hpast).fires everyMinute (by decide)).1 hagain
  have hlt := (hlater [] r [] q [] everyMinute hpast hagain hattempted (by simp) o hcause).1
  obtain ⟨-, -, -, -, hle⟩ := hcause
  rw [hr] at hle
  rw [hq] at hlt
  exact absurd hle (Int.not_le.2 hlt)

end DuckRun.Runtime
