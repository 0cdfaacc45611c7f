import DuckRun.Executors.Traces
import Mathlib.Data.List.Induction
/-!
# The live table and the ambient console

`ContinueRunAsync` sets the ambient console and enters the run into `_live`, and
undoes both at the end of its `finally` block, after the last update of the
store. When that update throws, the console stays set and the run stays listed
for good.
-/

namespace DuckRun.Executors

open DuckRun.Lib DuckRun.Runtime DuckRun.Runtime.JobExecutor

/-- A flag that some effects raise or lower, after a trace. -/
def flag (f : Effect → Option Bool) (b : Bool) (trace : List Effect) : Bool := trace.foldl (fun b e => (f e).getD b) b

/-- The run is in `_live`. -/
def listing : Effect → Option Bool
  | .register => some true
  | .unregister => some false
  | _ => none

/-- The run's console is the ambient one. -/
def ambient : Effect → Option Bool
  | .setCurrent console => some console
  | _ => none

theorem flag_append (f : Effect → Option Bool) (b : Bool) (before after : List Effect) :
    flag f b (before ++ after) = flag f (flag f b before) after := by
  unfold flag
  rw [List.foldl_append]

theorem flag_silent {f : Effect → Option Bool} {b : Bool} {trace : List Effect} (h : ∀ e ∈ trace, f e = none) :
    flag f b trace = b := by
  induction trace with
  | nil => rfl
  | cons e trace ih =>
    have he := h e List.mem_cons_self
    show flag f ((f e).getD b) trace = b
    rw [he]
    exact ih fun e he => h e (List.mem_cons_of_mem _ he)

/-! ## One execution -/

section Execution
variable {p : Package} {o : Outcomes} {job : JobDescriptor} {run : JobRun}

/-- An execution that registers its run clears up at its very end, or not at all. -/
theorem execute_shape (hr : p.Registers o job) : ∃ trace, .register ∈ trace ∧ .unregister ∉ trace ∧
    flag listing false trace = true ∧ flag ambient false trace = true ∧
    ((p.ClosingStores o job ∧ (p.execute o job run).2 = trace ++ [.setCurrent false, .unregister]) ∨
      (¬ p.ClosingStores o job ∧ (p.execute o job run).2 = trace)) := by
  obtain ⟨before, k, last, htrace, hsilent, hk⟩ := @execute_closes p o job run hr
  generalize hquiet : before ++ .assign (finish (o.clock k) last) :: writes o k (finish (o.clock k) last) = quiet
  have hall : ∀ e ∈ quiet, e ≠ .unregister ∧ listing e = none ∧ ambient e = none := by
    intro e he
    rw [← hquiet, List.mem_append, List.mem_cons] at he
    rcases he with he | rfl | he
    · obtain ⟨hreg, hunreg, hset⟩ := hsilent e he
      cases e <;> simp_all [listing, ambient]
    · simp [listing, ambient]
    · rcases mem_writes he with rfl | rfl | rfl <;> simp [listing, ambient]
  have hend : (p.execute o job run).2 =
      ([.setCurrent true, .register] ++ quiet) ++ if (o.updateThrows k).isNone then [.setCurrent false, .unregister] else [] := by
    rw [htrace, ← hquiet]
    simp [closing]
  refine ⟨[.setCurrent true, .register] ++ quiet, by simp, fun hmem => ?_, ?_, ?_, ?_⟩
  · rcases List.mem_append.1 hmem with hmem | hmem
    · simp at hmem
    · exact (hall _ hmem).1 rfl
  · rw [flag_append, flag_silent fun e he => (hall e he).2.1]
    rfl
  · rw [flag_append, flag_silent fun e he => (hall e he).2.2]
    rfl
  · rw [hk, hend]
    cases hu : o.updateThrows k with
    | none => exact .inl ⟨rfl, rfl⟩
    | some ex => exact .inr ⟨nofun, List.append_nil _⟩

end Execution

/-! ## The table of a node -/

/-- The run is registered, and `ContinueRunAsync` is not over and has not taken it out again. -/
def BackgroundRun.inProgress (r : BackgroundRun) : Prop := .register ∈ r.trace ∧ .unregister ∉ r.trace ∧ ¬ r.isOver

/-- `_live` has the runs that their traces have entered. -/
structure Tabled (s : BackgroundNode) : Prop where
  bound : ∀ i ∈ s.live, i < s.runs.length
  listed : ∀ (i : Nat) r, s.runs[i]? = some r → (i ∈ s.live ↔ flag listing false r.trace = true)

section Node
variable {p : Package} {s s' : BackgroundNode}

theorem mem_live_one {id j : Nat} {keys : List Nat} {e : Effect} :
    j ∈ Framework.JobExecutor.live id keys [e] ↔
      if j = id then (listing e).getD (decide (id ∈ keys)) = true else j ∈ keys := by
  by_cases hj : j = id
  · subst hj
    cases e <;> simp [Framework.JobExecutor.live, listing]
  · cases e <;> simp [Framework.JobExecutor.live, hj]

theorem tabled_act {i : Nat} {r r' : BackgroundRun} {a : RunAct} (hi : Tabled s) (hr : s.runs[i]? = some r)
    (ha : r.act p s.stopping a = some r') : Tabled { s with live := s.liveAfter i r a, runs := s.runs.set i r' } := by
  have hlt : i < s.runs.length := (List.getElem?_eq_some_iff.1 hr).1
  rcases BackgroundRun.act_cases ha with ⟨e, todo, rfl, hphase, rfl⟩ | ⟨hne, htrace⟩
  · have hlive : s.liveAfter i r .effect = Framework.JobExecutor.live i s.live [e] := by
      unfold BackgroundNode.liveAfter BackgroundRun.next
      rw [hphase]
      rfl
    rw [hlive]
    refine ⟨fun j hj => ?_, fun j x hx => ?_⟩
    · rw [List.length_set]
      by_cases hji : j = i
      · exact hji ▸ hlt
      · rw [mem_live_one, if_neg hji] at hj
        exact hi.bound j hj
    · rw [mem_live_one]
      rcases getElem?_set_cases hx with ⟨rfl, rfl⟩ | ⟨hji, hx⟩
      · have hflag : flag listing false (r.trace ++ [e]) = (listing e).getD (flag listing false r.trace) := flag_append _ _ _ _
        have hiff : decide (j ∈ s.live) = flag listing false r.trace := by
          rw [Bool.eq_iff_iff, decide_eq_true_iff]
          exact hi.listed j r hr
        rw [if_pos rfl, hiff, ← hflag]
        rfl
      · rw [if_neg hji]
        exact hi.listed j x hx
  · have hlive : s.liveAfter i r a = s.live := by
      unfold BackgroundNode.liveAfter
      split
      · exact absurd rfl hne
      · rfl
    rw [hlive]
    refine ⟨fun j hj => ?_, fun j x hx => ?_⟩
    · rw [List.length_set]
      exact hi.bound j hj
    · rcases getElem?_set_cases hx with ⟨rfl, rfl⟩ | ⟨-, hx⟩
      · rw [htrace]
        exact hi.listed j r hr
      · exact hi.listed j x hx

theorem tabled_step {e : BackgroundEvent} (hi : Tabled s) (h : s.step p e = some s') : Tabled s' := by
  cases e with
  | arrive job returns outcomes createdAt triggerSource =>
    cases h
    refine ⟨fun j hj => ?_, fun j x hx => ?_⟩
    · rw [List.length_append]
      exact Nat.lt_add_right _ (hi.bound j hj)
    · rcases getElem?_snoc_cases hx with ⟨rfl, rfl⟩ | hx
      · exact iff_of_false (fun hj => Nat.lt_irrefl _ (hi.bound _ hj)) nofun
      · exact hi.listed j x hx
  | stop =>
    cases h
    exact ⟨hi.bound, hi.listed⟩
  | lookup id =>
    cases h
    refine ⟨fun j hj => ?_, fun j x hx => ?_⟩
    · rw [List.length_modify]
      exact hi.bound j hj
    · rcases getElem?_modify_cases hx with ⟨rfl, r, hr, rfl⟩ | ⟨-, hx⟩
      · exact hi.listed j r hr
      · exact hi.listed j x hx
  | cancel id =>
    simp only [BackgroundNode.step] at h
    split at h <;> cases h
    refine ⟨fun j hj => ?_, fun j x hx => ?_⟩
    · rw [List.length_modify]
      exact hi.bound j hj
    · rcases getElem?_modify_cases hx with ⟨rfl, r, hr, rfl⟩ | ⟨-, hx⟩
      · have htrace : r.requestCancel.trace = r.trace := by
          unfold BackgroundRun.requestCancel
          split <;> rfl
        rw [htrace]
        exact hi.listed j r hr
      · exact hi.listed j x hx
  | act id a =>
    simp only [BackgroundNode.step] at h
    split at h
    · obtain ⟨r', ha, rfl⟩ := Option.map_eq_some_iff.1 h
      exact tabled_act hi ‹_› ha
    · cases h

theorem tabled_exec {es : List BackgroundEvent} (h : exec (BackgroundNode.step p) .start es = some s) : Tabled s := by
  refine exec_inv Tabled (fun _ _ _ hi hs => tabled_step hi hs) ⟨fun i hi => ?_, fun i r hr => ?_⟩ h
  · simp [BackgroundNode.start] at hi
  · simp [BackgroundNode.start] at hr

end Node

/-! ## What an ended execution leaves -/

section Ended
variable {p : Package} {r : BackgroundRun}

theorem Follows.registers (h : Follows p r) (hreg : .register ∈ r.trace) : p.Registers r.outcomes r.job := by
  have hactual : p.Registers r.actual r.job ↔ p.Registers r.outcomes r.job := registers_actual
  by_contra hnot
  have hmem := (execute_unregistered (fun hr => hnot (hactual.1 hr))).mem (h.begins.mem hreg)
  cases List.mem_singleton.1 hmem

theorem flag_listing_of_register {b : Bool} {trace : List Effect} (hreg : .register ∈ trace) (hunreg : .unregister ∉ trace) :
    flag listing b trace = true := by
  induction trace using List.reverseRecOn with
  | nil => cases hreg
  | append_singleton trace e ih =>
    rw [flag_append]
    rw [List.mem_append, not_or] at hunreg
    cases e with
    | register => rfl
    | unregister => exact absurd (List.mem_singleton_self _) hunreg.2
    | setCurrent | assign | invoked | store | storeThrows | report =>
      refine ih ((List.mem_append.1 hreg).resolve_right fun hmem => ?_) hunreg.1
      cases List.mem_singleton.1 hmem

/-- A run is in the table from its registration to its removal. -/
theorem Follows.listed_iff (h : Follows p r) :
    flag listing false r.trace = true ↔ .register ∈ r.trace ∧ .unregister ∉ r.trace := by
  refine ⟨fun hflag => ?_, fun hmem => flag_listing_of_register hmem.1 hmem.2⟩
  have hreg : .register ∈ r.trace := by
    by_contra hnot
    -- Without `.register` no effect raises the flag.
    have hlow : ∀ trace : List Effect, .register ∉ trace → flag listing false trace = false := by
      intro trace
      induction trace with
      | nil => exact fun _ => rfl
      | cons e trace ih =>
        intro hmem
        rw [List.mem_cons, not_or] at hmem
        cases e with
        | register => exact absurd rfl hmem.1
        | unregister | setCurrent | assign | invoked | store | storeThrows | report => exact ih hmem.2
    rw [hlow _ hnot] at hflag
    cases hflag
  refine ⟨hreg, fun hunreg => ?_⟩
  have hregisters : p.Registers r.actual r.job := registers_actual.2 (h.registers hreg)
  obtain ⟨trace, -, hnone, -, -, ⟨-, hend⟩ | ⟨-, hend⟩⟩ := @execute_shape p r.actual r.job r.created hregisters
  · -- What removes the run is the last effect of all.
    obtain ⟨rest, hrest⟩ := h.begins
    obtain ⟨before, after, hsplit⟩ := List.append_of_mem hunreg
    have hsame : (trace ++ [.setCurrent false]) ++ .unregister :: [] = before ++ .unregister :: (after ++ rest) := by
      rw [hsplit, hend] at hrest
      simpa using hrest.symm
    have hlast := (List.append_cons_inj_of_notMem (by simpa using hnone) List.not_mem_nil).1 hsame
    have hafter : after = [] := (List.append_eq_nil_iff.1 hlast.2.2.symm).1
    rw [hsplit, hafter, flag_append] at hflag
    cases hflag
  · have hmem := h.begins.mem hunreg
    rw [hend] at hmem
    exact hnone hmem

/-- An ended execution that had registered its run has cleared up exactly when
its `finally` block could store it. -/
theorem Follows.cleared_iff (h : Follows p r) (hover : r.isOver) (hreg : .register ∈ r.trace) :
    (flag listing false r.trace = false ↔ p.ClosingStores r.outcomes r.job) ∧
      (flag ambient false r.trace = false ↔ p.ClosingStores r.outcomes r.job) := by
  have hregisters : p.Registers r.actual r.job := registers_actual.2 (h.registers hreg)
  have hsame : p.ClosingStores r.actual r.job ↔ p.ClosingStores r.outcomes r.job := closingStores_actual
  obtain ⟨trace, -, -, htable, hconsole, ⟨hs, hend⟩ | ⟨hs, hend⟩⟩ := @execute_shape p r.actual r.job r.created hregisters
  · rw [h.whole hover, hend, flag_append, flag_append]
    exact ⟨iff_of_true rfl (hsame.1 hs), iff_of_true rfl (hsame.1 hs)⟩
  · rw [h.whole hover, hend, htable, hconsole]
    have hnot := fun hstores => hs (hsame.2 hstores)
    exact ⟨iff_of_false nofun hnot, iff_of_false nofun hnot⟩

end Ended

/-- In any node, whatever its runs and the calls on them do: an ended execution
has left neither its run in the table nor its console exactly when its `finally`
block could store the run, and the table is the executions in progress exactly
when this holds for all that have ended. -/
theorem live_table_restored (p : Package) (es : List BackgroundEvent) (s : BackgroundNode)
    (hrun : exec (BackgroundNode.step p) .start es = some s) :
    (∀ (i : Nat) r, s.runs[i]? = some r → r.isOver → .register ∈ r.trace →
      ((i ∉ s.live ∧ flag ambient false r.trace = false) ↔ p.ClosingStores r.outcomes r.job)) ∧
    ((∀ i, i ∈ s.live ↔ ∃ r, s.runs[i]? = some r ∧ r.inProgress) ↔
      ∀ (i : Nat) r, s.runs[i]? = some r → r.isOver → .register ∈ r.trace → p.ClosingStores r.outcomes r.job) := by
  have hfollows := follows_exec hrun
  have htabled := tabled_exec hrun
  have hended : ∀ (i : Nat) r, s.runs[i]? = some r → r.isOver → .register ∈ r.trace →
      ((i ∉ s.live ∧ flag ambient false r.trace = false) ↔ p.ClosingStores r.outcomes r.job) := by
    intro i r hr hover hreg
    obtain ⟨htable, hconsole⟩ := (hfollows i r hr).cleared_iff hover hreg
    rw [htabled.listed i r hr, Bool.not_eq_true, htable, hconsole, and_self_iff]
  refine ⟨hended, fun htable i r hr hover hreg => ?_, fun hall i => ⟨fun hlive => ?_, ?_⟩⟩
  · refine ((hfollows i r hr).cleared_iff hover hreg).1.1 (Bool.not_eq_true _ ▸ fun hflag => ?_)
    obtain ⟨r', hr', hprogress⟩ := (htable i).1 ((htabled.listed i r hr).2 hflag)
    rw [hr] at hr'
    cases hr'
    exact hprogress.2.2 hover
  · obtain ⟨r, hr⟩ : ∃ r, s.runs[i]? = some r := ⟨_, List.getElem?_eq_getElem (htabled.bound i hlive)⟩
    obtain ⟨hreg, hunreg⟩ := (hfollows i r hr).listed_iff.1 ((htabled.listed i r hr).1 hlive)
    refine ⟨r, hr, hreg, hunreg, fun hover => ?_⟩
    exact ((hended i r hr hover hreg).2 (hall i r hr hover hreg)).1 hlive
  · rintro ⟨r, hr, hreg, hunreg, -⟩
    exact (htabled.listed i r hr).2 ((hfollows i r hr).listed_iff.2 ⟨hreg, hunreg⟩)

/-- The second update throws. -/
def lastUpdateThrows : Outcomes :=
  { quietOutcomes with updateThrows := fun k => if k = 1 then some (.other "no connection" "System.Exception") else none }

/-- A run in which the `finally` block does three or six things. -/
def wholeRun (outcomes : Outcomes) (closing : Nat) : List BackgroundEvent :=
  alone .nothing outcomes (toBody ++ [.returns, .resume] ++ List.replicate closing .effect ++ [.ends, .release])

theorem stays_listed :
    ¬ ∀ (p : Package) (es : List BackgroundEvent) (s : BackgroundNode), exec (BackgroundNode.step p) .start es = some s →
      ∀ (i : Nat) r, s.runs[i]? = some r → r.isOver → .register ∈ r.trace → i ∉ s.live ∧ flag ambient false r.trace = false := by
  intro h
  obtain ⟨s, hs, hlive, r, hr, hover, hreg⟩ : ∃ s, exec (BackgroundNode.step .core) .start (wholeRun lastUpdateThrows 3) = some s ∧
      s.live = [0] ∧ ∃ r, s.runs[0]? = some r ∧ r.phase = .released ∧ .register ∈ r.trace :=
    ⟨_, rfl, rfl, _, rfl, rfl, by decide⟩
  have hgone := (h .core _ s hs 0 r hr (.inr hover) hreg).1
  rw [hlive] at hgone
  exact hgone List.mem_cons_self

theorem live_table_restored_quiet :
    ∃ s, exec (BackgroundNode.step .core) .start (wholeRun quietOutcomes 6) = some s ∧
      ∃ r, s.runs[0]? = some r ∧ r.isOver ∧ 0 ∉ s.live ∧ flag ambient false r.trace = false := by
  obtain ⟨s, hs, r, hr, hover, hreg, hquiet⟩ : ∃ s, exec (BackgroundNode.step .core) .start (wholeRun quietOutcomes 6) = some s ∧
      ∃ r, s.runs[0]? = some r ∧ r.phase = .released ∧ .register ∈ r.trace ∧ r.outcomes.updateThrows = fun _ => none :=
    ⟨_, rfl, _, rfl, rfl, by decide, rfl⟩
  have hstores : Package.core.ClosingStores r.outcomes r.job := ⟨fun _ => by rw [hquiet], fun _ => by rw [hquiet]⟩
  exact ⟨s, hs, r, hr, .inr hover, ((live_table_restored .core _ s hs).1 0 r hr (.inr hover) hreg).2 hstores⟩

end DuckRun.Executors
