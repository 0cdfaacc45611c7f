import DuckRun.Redis.SingleNode
import DuckRun.Runtime.GateRefinement
/-!
# Whole calls at the gate

`SingleNode` runs each call of the gate to its end before the next, whatever
coordinator it has. Such a sequence is one order among those of `JobSlotGate`:
a run of its steps, with the same trackers and the same answers.
-/

namespace DuckRun.Redis

open DuckRun.Lib DuckRun.Runtime
open DuckRun.Runtime.JobSlotGate (Gate Acquisition AcquireAct AcquirePhase GateEvent)

/-- Whether the call got its slot, once it is over. -/
def answer (a : Acquisition) : Option Bool :=
  match a.phase with
  | .acquired => some true
  | .refused | .threw => some false
  | _ => none

/-- The gate between two calls; `ids` are the calls that the slots of `g` were made for. -/
structure Whole {σ : Type} (s : JobSlotGate σ) (g : Gate) (ids : List Nat) : Prop where
  trackers : g.trackers = s.trackers
  answers : g.acquisitions.map answer = s.answers.map some
  made : ids.length = g.slots.length
  slots : ∀ slot ∈ s.slots, ∃ k : Nat, ids[k]? = some slot.id ∧
    g.slots[k]? = some ⟨slot.tracker, slot.remote.isSome, false, []⟩
  tracked : ∀ slot ∈ s.slots, (s.trackers slot.tracker).isSome = true

section Calls
variable {σ : Type} {fold : String → String} {registry : List JobDescriptor} {s : JobSlotGate σ} {g : Gate} {ids : List Nat}

theorem whole_new (coordinator : σ) : Whole (.new coordinator) .empty [] where
  trackers := rfl
  answers := rfl
  made := rfl
  slots := by simp [JobSlotGate.new]
  tracked := by simp [JobSlotGate.new]

/-! ## `TryAcquireAsync` -/

/-- The gate with one more call, on the tracker `tr`, that has made the slots `made`. -/
def during (fold : String → String) (g : Gate) (job : JobDescriptor) (tr : ConcurrencyTracker) (phase : AcquirePhase)
    (made : List Runtime.JobSlotGate.JobSlot) : Gate where
  trackers := Function.update g.trackers (fold job.name) (some tr)
  acquisitions := g.acquisitions ++ [⟨job, phase⟩]
  slots := g.slots ++ made

variable {job : JobDescriptor}

/-- The call enters and gets its tracker. -/
theorem exec_entering (hjob : job ∈ registry) :
    exec (Gate.step fold registry) g [.tryAcquireAsync job, .acquisition g.acquisitions.length .getTracker] =
      some (during fold g job (g.getTracker fold job) .reading []) := by
  simp [exec, Gate.step, hjob, Acquisition.step, during, Gate.getTracker]

/-- One more step of the call. -/
theorem exec_during {fs : List GateEvent} {tr tr' : ConcurrencyTracker} {phase phase' : AcquirePhase}
    {made more : List Runtime.JobSlotGate.JobSlot}
    (h : exec (Gate.step fold registry) g fs = some (during fold g job tr phase made)) {act : AcquireAct}
    (hs : Acquisition.step (fold job.name) tr ⟨job, phase⟩ act = some (tr', ⟨job, phase'⟩, more)) :
    exec (Gate.step fold registry) g (fs ++ [.acquisition g.acquisitions.length act]) =
      some (during fold g job tr' phase' (made ++ more)) := by
  rw [exec_append, h]
  simp [exec, Gate.step, during, Gate.getTracker, hs]

/-- A tracker is written, none is lost. -/
theorem tracked_update (hw : Whole s g ids) (key : String) (tr : ConcurrencyTracker) :
    ∀ slot ∈ s.slots, (Function.update s.trackers key (some tr) slot.tracker).isSome = true := by
  intro slot hslot
  by_cases hkey : slot.tracker = key
  · rw [hkey, Function.update_self]
    rfl
  · rw [Function.update_of_ne hkey]
    exact hw.tracked slot hslot

/-- The call is over without a slot. -/
theorem whole_refused (hw : Whole s g ids) (tr : ConcurrencyTracker) {phase : AcquirePhase}
    (hphase : answer ⟨job, phase⟩ = some false) (coordinator : σ) :
    Whole { trackers := Function.update s.trackers (fold job.name) (some tr), coordinator := coordinator,
            slots := s.slots, answers := s.answers ++ [false] }
      (during fold g job tr phase []) ids where
  trackers := by rw [during, hw.trackers]
  answers := by simp [during, hw.answers, hphase]
  made := by simp [during, hw.made]
  slots := by simpa [during] using hw.slots
  tracked := tracked_update hw _ tr

/-- The call is over with a slot. -/
theorem whole_acquired (hw : Whole s g ids) (tr : ConcurrencyTracker) (remote : Option String) (coordinator : σ) :
    Whole { trackers := Function.update s.trackers (fold job.name) (some tr), coordinator := coordinator,
            slots := s.slots ++ [⟨s.answers.length, fold job.name, remote⟩], answers := s.answers ++ [true] }
      (during fold g job tr .acquired [⟨fold job.name, remote.isSome, false, []⟩]) (ids ++ [s.answers.length]) where
  trackers := by rw [during, hw.trackers]
  answers := by simp [during, hw.answers, answer]
  made := by simp [during, hw.made]
  slots slot hslot := by
    rcases List.mem_append.1 hslot with hslot | hslot
    · obtain ⟨k, hid, hk⟩ := hw.slots slot hslot
      refine ⟨k, ?_, ?_⟩
      · rw [List.getElem?_append_left (List.getElem?_eq_some_iff.1 hid).1, hid]
      · dsimp only [during]
        rw [List.getElem?_append_left (List.getElem?_eq_some_iff.1 hk).1, hk]
    · rw [List.mem_singleton.1 hslot]
      exact ⟨g.slots.length, by simp [← hw.made], by simp [during]⟩
  tracked slot hslot := by
    rcases List.mem_append.1 hslot with hslot | hslot
    · exact tracked_update hw _ tr slot hslot
    · rw [List.mem_singleton.1 hslot]
      dsimp only
      rw [Function.update_self]
      rfl

variable {coordinator : Coordinator σ}

theorem refines_tryAcquire (hw : Whole s g ids) (hjob : job ∈ registry) (ttl : TimeSpan) (at_ : Moment) :
    ∃ fs g' ids', exec (Gate.step fold registry) g fs = some g' ∧
      Whole (s.tryAcquireAsync fold coordinator job ttl at_) g' ids' := by
  have hsame : g.getTracker fold job = s.getTracker fold job := by
    unfold Gate.getTracker JobSlotGate.getTracker
    rw [hw.trackers]
  have henter := @exec_entering fold registry g job hjob
  rw [hsame] at henter
  unfold JobSlotGate.tryAcquireAsync
  generalize s.getTracker fold job = tr at henter
  by_cases hfull : tr.current ≥ tr.max
  · have hnone : ConcurrencyTracker.tryAcquire tr = none := if_pos hfull
    have hread := @exec_during _ _ _ _ _ _ tr _ .refused _ [] henter .read (by simp [Acquisition.step, hfull])
    simp only [hnone]
    exact ⟨_, _, ids, hread, whole_refused hw tr rfl s.coordinator⟩
  · have hsome : ConcurrencyTracker.tryAcquire tr = some { tr with current := tr.current + 1 } := if_neg hfull
    have hread := @exec_during _ _ _ _ _ _ tr _ (.swapping tr.current) _ [] henter .read (by simp [Acquisition.step, hfull])
    simp only [hsome]
    by_cases hfinite : job.finite = true
    · have hswap := @exec_during _ _ _ _ _ _ { tr with current := tr.current + 1 } _ .asking _ [] hread .swap
        (by simp [Acquisition.step, hfinite])
      rw [if_pos hfinite]
      split
      · have hgranted := @exec_during _ _ _ _ _ _ { tr with current := tr.current + 1 } _ .acquired _
          [⟨fold job.name, true, false, []⟩] hswap (.coordinator .granted) rfl
        exact ⟨_, _, _, hgranted, whole_acquired hw _ (some job.name) _⟩
      · have hrefused := @exec_during _ _ _ _ _ _ { tr with current := tr.current + 1 } _ (.rollingBack false) _ [] hswap
          (.coordinator .refused) rfl
        have hrolled := @exec_during _ _ _ _ _ _ (ConcurrencyTracker.release { tr with current := tr.current + 1 }) _
          .refused _ [] hrefused .rollback rfl
        exact ⟨_, _, ids, hrolled, whole_refused hw _ rfl _⟩
    · have hswap := @exec_during _ _ _ _ _ _ { tr with current := tr.current + 1 } _ .acquired _
        [⟨fold job.name, false, false, []⟩] hread .swap (by simp [Acquisition.step, hfinite])
      rw [if_neg hfinite]
      exact ⟨_, _, _, hswap, whole_acquired hw _ none _⟩

/-! ## `DisposeAsync` -/

/-- The slot is out of use; the others are where they were. -/
theorem whole_disposed (hw : Whole s g ids) {slot : JobSlot} {k : Nat} (hid : ids[k]? = some slot.id)
    {tr : ConcurrencyTracker} (htr : s.trackers slot.tracker = some tr) (coordinator : σ)
    (disposed : Runtime.JobSlotGate.JobSlot) :
    Whole { s with
        trackers := Function.update s.trackers slot.tracker ((s.trackers slot.tracker).map ConcurrencyTracker.release)
        coordinator := coordinator
        slots := s.slots.filter fun other => other.id ≠ slot.id }
      { g with
        trackers := Function.update g.trackers slot.tracker (some tr.release)
        slots := g.slots.set k disposed } ids where
  trackers := by rw [hw.trackers, htr, Option.map_some]
  answers := hw.answers
  made := by simp [hw.made]
  slots other hother := by
    obtain ⟨hmem, hne⟩ := List.mem_filter.1 hother
    obtain ⟨k', hid', hk'⟩ := hw.slots other hmem
    refine ⟨k', hid', ?_⟩
    have hkk : k ≠ k' := by
      rintro rfl
      rw [hid] at hid'
      exact of_decide_eq_true hne (Option.some.inj hid').symm
    dsimp only
    rw [List.getElem?_set_ne hkk, hk']
  tracked other hother := by
    rw [htr, Option.map_some]
    exact tracked_update hw _ tr.release other (List.mem_of_mem_filter hother)

theorem refines_dispose (hw : Whole s g ids) (id : Nat) (at_ : Moment) :
    ∃ fs g' ids', exec (Gate.step fold registry) g fs = some g' ∧ Whole (s.dispose coordinator id at_) g' ids' := by
  unfold JobSlotGate.dispose
  cases hfind : s.slots.find? (fun slot => slot.id = id) with
  | none => exact ⟨[], g, ids, rfl, hw⟩
  | some slot =>
    obtain ⟨hslot, rfl⟩ := find_row_mem hfind
    obtain ⟨k, hid, hk⟩ := hw.slots slot hslot
    obtain ⟨tr, htr⟩ := Option.isSome_iff_exists.1 (hw.tracked slot hslot)
    obtain ⟨hlt, -⟩ := List.getElem?_eq_some_iff.1 hk
    obtain ⟨fs, hfs⟩ := @Runtime.JobSlotGate.exec_disposed fold registry g _ _ _ _ hk (hw.trackers ▸ htr)
    obtain ⟨gs, hgs⟩ := @Runtime.JobSlotGate.exec_released fold registry
      { g with
        trackers := Function.update g.trackers slot.tracker (some tr)
        slots := g.slots.set k ⟨slot.tracker, slot.remote.isSome, true, [.releasing false]⟩ }
      k slot.tracker slot.remote.isSome tr (by simp [hlt]) (by simp)
    simp only [Function.update_idem, List.set_set] at hgs
    exact ⟨fs ++ gs, _, ids, by rw [exec_append, hfs]; exact hgs, whole_disposed hw hid htr _ _⟩

/-! ## Every sequence -/

theorem whole_foldl (calls : List GateCall) (hcalls : ∀ call ∈ calls, ∀ job, call.job = some job → job ∈ registry)
    (hw : Whole s g ids) :
    ∃ fs g' ids', exec (Gate.step fold registry) g fs = some g' ∧
      Whole (calls.foldl (JobSlotGate.step fold coordinator) s) g' ids' := by
  induction calls generalizing s g ids with
  | nil => exact ⟨[], g, ids, rfl, hw⟩
  | cons call calls ih =>
    obtain ⟨hcall, hrest⟩ := List.forall_mem_cons.1 hcalls
    have hone : ∃ fs g' ids', exec (Gate.step fold registry) g fs = some g' ∧
        Whole (s.step fold coordinator call) g' ids' := by
      cases call with
      | tryAcquire job ttl at_ => exact refines_tryAcquire hw (hcall job rfl) ttl at_
      | dispose id at_ => exact refines_dispose hw id at_
    obtain ⟨fs, g', ids', hfs, hw'⟩ := hone
    obtain ⟨gs, g'', ids'', hgs, hw''⟩ := ih hrest hw'
    exact ⟨fs ++ gs, g'', ids'', by rw [exec_append, hfs]; exact hgs, hw''⟩

end Calls

/-- Every sequence of whole calls is a run of the gate, which gives the same answers. -/
theorem calls_refine_gate {σ : Type} (fold : String → String) (registry : List JobDescriptor) (coordinator : Coordinator σ)
    (start : σ) (calls : List GateCall) (hcalls : ∀ call ∈ calls, ∀ job, call.job = some job → job ∈ registry) :
    ∃ fs g ids, exec (Gate.step fold registry) .empty fs = some g ∧
      Whole (calls.foldl (JobSlotGate.step fold coordinator) (.new start)) g ids :=
  whole_foldl calls hcalls (whole_new start)

end DuckRun.Redis
