import DuckRun.Executors.Executions
/-!
# Finished runs

A run counts as immutable once `FinishedAt` is set. An execution keeps to that
except when the run fails early: the `catch` has stamped, stored and reported
the finished run, and the `finally` block does all three again.
-/

namespace DuckRun.Executors

open DuckRun.Lib DuckRun.Runtime DuckRun.Runtime.JobExecutor DuckRun.Framework.JobExecutor

/-- After a finished record is stored, nothing else is written or reported, and
that record only once. -/
structure FinishedOnce (trace : List Effect) : Prop where
  immutable : ∀ pre run post, trace = pre ++ .store run :: post → run.finishedAt.isSome = true →
    ∀ later, .store later ∈ post ∨ .report later ∈ post → later = run
  storedOnce : (stored trace).countP (fun run => run.finishedAt.isSome) ≤ 1
  reportedOnce : (reported trace).countP (fun run => run.finishedAt.isSome) ≤ 1

/-! ## Traces that keep to it -/

section Traces
variable {trace : List Effect} {e : Effect} {run : JobRun}

/-- What the effect gives to the store or to the reporter. -/
def written : Effect → Option JobRun
  | .store run | .report run => some run
  | _ => none

theorem finishedOnce_nil : FinishedOnce [] where
  immutable pre run post h := by simp at h
  storedOnce := Nat.zero_le _
  reportedOnce := Nat.zero_le _

/-- An effect that writes and reports no finished record. -/
theorem finishedOnce_cons (he : ∀ run, written e = some run → run.finishedAt = none) (h : FinishedOnce trace) :
    FinishedOnce (e :: trace) where
  immutable pre run post htrace hfinished := by
    cases pre with
    | nil =>
      obtain ⟨rfl, -⟩ := List.cons.inj htrace
      rw [he run rfl] at hfinished
      cases hfinished
    | cons _ pre => exact h.immutable pre run post (List.cons.inj htrace).2 hfinished
  storedOnce := by
    have hrest := h.storedOnce
    unfold stored at hrest ⊢
    cases e with
    | store run => simpa [Effect.stored, he run rfl] using hrest
    | _ => exact hrest
  reportedOnce := by
    have hrest := h.reportedOnce
    unfold reported at hrest ⊢
    cases e with
    | report run => simpa [he run rfl] using hrest
    | _ => exact hrest

theorem finishedOnce_append {before : List Effect} (hb : ∀ e ∈ before, ∀ run, written e = some run → run.finishedAt = none)
    (h : FinishedOnce trace) : FinishedOnce (before ++ trace) := by
  induction before with
  | nil => exact h
  | cons e before ih =>
    refine finishedOnce_cons (hb e List.mem_cons_self) (ih fun e he => hb e (List.mem_cons_of_mem _ he))

theorem finishedOnce_silent (h : ∀ e ∈ trace, written e = none) : FinishedOnce trace := by
  have hunfinished : ∀ e ∈ trace, ∀ run, written e = some run → run.finishedAt = none := by
    intro e he run hrun
    rw [h e he] at hrun
    cases hrun
  have hall := finishedOnce_append hunfinished finishedOnce_nil
  rwa [List.append_nil] at hall

theorem finishedOnce_written (h : ∀ e ∈ trace, written e = none) : FinishedOnce (.store run :: .report run :: trace) := by
  have hrest := finishedOnce_silent h
  refine { immutable := ?_, storedOnce := ?_, reportedOnce := ?_ }
  · intro pre r post htrace hfinished later hlater
    cases pre with
    | nil =>
      obtain ⟨hr, rfl⟩ := List.cons.inj htrace
      cases hr
      rcases hlater with hmem | hmem
      · rcases List.mem_cons.1 hmem with hne | hmem
        · cases hne
        · cases h _ hmem
      · rcases List.mem_cons.1 hmem with he | hmem
        · cases he
          rfl
        · cases h _ hmem
    | cons e pre =>
      have hmem : Effect.store r ∈ .report run :: trace := by
        rw [(List.cons.inj htrace).2]
        exact List.mem_append_right _ List.mem_cons_self
      rcases List.mem_cons.1 hmem with hne | hmem
      · cases hne
      · cases h _ hmem
  · have hnone : stored trace = [] := by
      refine List.filterMap_eq_nil_iff.2 fun e he => ?_
      have hsilent := h e he
      cases e <;> first | rfl | cases hsilent
    have hstored : stored (.store run :: .report run :: trace) = run :: stored trace := rfl
    rw [hstored, hnone]
    exact List.countP_le_length
  · have hnone : reported trace = [] := by
      refine List.filterMap_eq_nil_iff.2 fun e he => ?_
      have hsilent := h e he
      cases e <;> first | rfl | cases hsilent
    have hreported : reported (.store run :: .report run :: trace) = run :: reported trace := rfl
    rw [hreported, hnone]
    exact List.countP_le_length

theorem finishedOnce_closing (o : Outcomes) (k : Nat) (run : JobRun) : FinishedOnce (closing o k run) := by
  unfold closing writes
  cases o.updateThrows k with
  | none => exact finishedOnce_cons (by simp [written]) (finishedOnce_written (by simp [written]))
  | some ex => exact finishedOnce_silent (by simp [written])

end Traces

/-- An execution writes and reports its run in finished form once, exactly when
it does not fail early in a store that takes both its updates. -/
theorem finishedOnce_iff (p : Package) (o : Outcomes) (job : JobDescriptor) (id : Nat) (createdAt : Instant)
    (triggerSource : String) :
    FinishedOnce (p.execute o job (createRun id createdAt job triggerSource)).2 ↔
      ¬ (p.Registers o job ∧ p.FailsEarly o job ∧ o.updateThrows 0 = none ∧ o.updateThrows 1 = none) := by
  have hfresh : (createRun id createdAt job triggerSource).finishedAt = none := rfl
  generalize createRun id createdAt job triggerSource = run at hfresh
  by_cases hr : p.Registers o job
  · by_cases hearly : p.FailsEarly o job
    · obtain ⟨message, stack, htrace⟩ := @execute_early p o job run hr hearly
      rw [htrace]
      cases h0 : o.updateThrows 0 with
      | some ex =>
        rw [writes, h0]
        refine iff_of_true ?_ (by simp)
        exact finishedOnce_append (by simp [written]) (finishedOnce_closing o 1 _)
      | none =>
        rw [writes, closing, writes, h0]
        cases h1 : o.updateThrows 1 with
        | some ex =>
          refine iff_of_true ?_ (by simp)
          rw [List.append_assoc]
          exact finishedOnce_append (by simp [written]) (finishedOnce_written (by simp [written]))
        | none =>
          -- The `catch` stores a finished record, and the `finally` block another.
          refine iff_of_false (fun h => ?_) (by simp [hr, hearly])
          have htwo : 2 ≤ 1 := h.storedOnce
          omega
    · rw [iff_true_right (by simp [hearly])]
      by_cases hargs : p.Unresolved o job
      · rw [execute_unresolved hr hargs]
        exact finishedOnce_append (by simp [written]) (finishedOnce_closing o 0 run)
      · cases h0 : o.updateThrows 0 with
        | some ex =>
          rw [execute_storeFails hr hearly hargs h0]
          exact finishedOnce_append (by simp [written]) (finishedOnce_closing o 1 _)
        | none =>
          rw [execute_starts hr hearly hargs h0]
          exact finishedOnce_append (by simp [written, started, hfresh]) (finishedOnce_closing o 1 _)
  · rw [iff_true_right (by simp [hr])]
    refine finishedOnce_silent fun e he => ?_
    have hmem := (@execute_unregistered p o job run hr).mem he
    rw [List.mem_singleton.1 hmem]
    rfl

/-- An instance method of a class whose constructor throws. -/
def noTarget : Outcomes := { quietOutcomes with constructThrows := some (.other "no connection" "System.Exception") }

def needsTarget : MethodInfo := { needsToken with isStatic := false }

theorem finished_twice :
    ¬ ∀ (p : Package) (o : Outcomes) (job : JobDescriptor) (id : Nat) (createdAt : Instant) (triggerSource : String),
      FinishedOnce (p.execute o job (createRun id createdAt job triggerSource)).2 := by
  intro h
  have htwo := (h .core noTarget (describe nightlyJob "Jobs" needsTarget) 7 0 "Cron").storedOnce
  revert htwo
  decide

end DuckRun.Executors
