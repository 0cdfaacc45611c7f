import DuckRun.Runtime.Slots
/-!
# The slot gate

`JobSlotGate` under any number of threads that call `TryAcquireAsync`, and any
number of `DisposeAsync` calls on every `JobSlot` it returned, at the same time
and in any order. A tracker's count is the number of acquisitions past their
swap and not rolled back, and of slots not released yet (`GateInv`); a slot
gives its part back once, whichever call disposes of it.
-/

namespace DuckRun.Runtime.JobSlotGate

open DuckRun.Lib

/-! ## `TryAcquireAsync` -/

inductive AcquirePhase where
  /-- Before `GetTracker`. -/
  | entered
  /-- Before the read of `tracker.TryAcquire()`. -/
  | reading
  /-- Read `seen`, about to compare and swap. -/
  | swapping (seen : Int)
  /-- In the coordinator's `TryAcquireSlotAsync`. -/
  | asking
  /-- Before the `tracker.Release()` of the `catch`, or of the refusal. -/
  | rollingBack (threw : Bool)
  | refused
  | threw
  /-- The `JobSlot` is made. -/
  | acquired
  deriving DecidableEq, Repr

structure Acquisition where
  job : JobDescriptor
  phase : AcquirePhase
  deriving DecidableEq, Repr

/-! ## `JobSlot` -/

/-- A call of `DisposeAsync`. -/
inductive DisposePhase where
  /-- Before the exchange on `_disposed`. -/
  | entered
  /-- In `remote.DisposeAsync()`. -/
  | remote
  /-- In the `finally`, before `tracker.Release()`. -/
  | releasing (threw : Bool)
  /-- After it. -/
  | released (threw : Bool)
  /-- Another call had exchanged before. -/
  | skipped
  deriving DecidableEq, Repr

structure JobSlot where
  /-- The key of its tracker. -/
  tracker : String
  hasRemote : Bool
  disposed : Bool
  calls : List DisposePhase
  deriving DecidableEq, Repr

inductive AcquireAct where
  | getTracker
  | read
  | swap
  | coordinator (answer : Answer)
  | rollback
  deriving DecidableEq, Repr

inductive DisposeAct where
  | exchange
  | remote (threw : Bool)
  | release
  deriving DecidableEq, Repr

/-- A step of an acquisition on the tracker under its key, and the slot it makes. -/
def Acquisition.step (key : String) (tr : ConcurrencyTracker) (a : Acquisition) :
    AcquireAct → Option (ConcurrencyTracker × Acquisition × List JobSlot)
  | .getTracker =>
    match a.phase with
    | .entered => some (tr, { a with phase := .reading }, [])
    | _ => none
  | .read =>
    match a.phase with
    | .reading =>
      if tr.current ≥ tr.max then some (tr, { a with phase := .refused }, [])
      else some (tr, { a with phase := .swapping tr.current }, [])
    | _ => none
  | .swap =>
    match a.phase with
    | .swapping seen =>
      if tr.current = seen then
        if a.job.finite then some ({ tr with current := seen + 1 }, { a with phase := .asking }, [])
        else some ({ tr with current := seen + 1 }, { a with phase := .acquired }, [⟨key, false, false, []⟩])
      else some (tr, { a with phase := .reading }, [])
    | _ => none
  | .coordinator answer =>
    match a.phase with
    | .asking =>
      match answer with
      | .granted => some (tr, { a with phase := .acquired }, [⟨key, true, false, []⟩])
      | .refused => some (tr, { a with phase := .rollingBack false }, [])
      | .threw => some (tr, { a with phase := .rollingBack true }, [])
    | _ => none
  | .rollback =>
    match a.phase with
    | .rollingBack threw => some (tr.release, { a with phase := if threw then .threw else .refused }, [])
    | _ => none

/-- A step of a slot's call `j` on the slot's tracker. -/
def JobSlot.step (tr : ConcurrencyTracker) (slot : JobSlot) (j : Nat) : DisposeAct → Option (ConcurrencyTracker × JobSlot)
  | .exchange =>
    match slot.calls[j]? with
    | some .entered =>
      if slot.disposed then some (tr, { slot with calls := slot.calls.set j .skipped })
      else some (tr, { slot with disposed := true, calls := slot.calls.set j (if slot.hasRemote then .remote else .releasing false) })
    | _ => none
  | .remote threw =>
    match slot.calls[j]? with
    | some .remote => some (tr, { slot with calls := slot.calls.set j (.releasing threw) })
    | _ => none
  | .release =>
    match slot.calls[j]? with
    | some (.releasing threw) => some (tr.release, { slot with calls := slot.calls.set j (.released threw) })
    | _ => none

/-! ## The gate -/

/-- The trackers by key, the acquisitions and the slots there have been. A
tracker is never replaced, so its key stands for it. -/
structure Gate where
  trackers : String → Option ConcurrencyTracker
  acquisitions : List Acquisition
  slots : List JobSlot

def Gate.empty : Gate := ⟨fun _ => none, [], []⟩

inductive GateEvent where
  | tryAcquireAsync (job : JobDescriptor)
  | acquisition (i : Nat) (act : AcquireAct)
  | disposeAsync (i : Nat)
  | disposal (i j : Nat) (act : DisposeAct)
  deriving DecidableEq, Repr

section Machine
variable (fold : String → String) (registry : List JobDescriptor)

/-- `GetOrAdd`. -/
def Gate.getTracker (g : Gate) (job : JobDescriptor) : ConcurrencyTracker :=
  (g.trackers (fold job.name)).getD (ConcurrencyTracker.new job.maxConcurrency)

def Gate.step (g : Gate) : GateEvent → Option Gate
  | .tryAcquireAsync job =>
    if job ∈ registry then some { g with acquisitions := g.acquisitions ++ [⟨job, .entered⟩] } else none
  | .acquisition i act => do
    let a ← g.acquisitions[i]?
    let (tr, a', made) ← a.step (fold a.job.name) (g.getTracker fold a.job) act
    return {
      trackers := Function.update g.trackers (fold a.job.name) (some tr)
      acquisitions := g.acquisitions.set i a'
      slots := g.slots ++ made }
  | .disposeAsync i => do
    let slot ← g.slots[i]?
    return { g with slots := g.slots.set i { slot with calls := slot.calls ++ [.entered] } }
  | .disposal i j act => do
    let slot ← g.slots[i]?
    let tr ← g.trackers slot.tracker
    let (tr', slot') ← slot.step tr j act
    return { g with trackers := Function.update g.trackers slot.tracker (some tr'), slots := g.slots.set i slot' }

end Machine

/-! ## What a tracker counts -/

/-- Past the successful swap and not rolled back. -/
def AcquirePhase.pastSwap : AcquirePhase → Bool
  | .asking | .rollingBack _ => true
  | _ => false

/-- Past the exchange that let it through. -/
def DisposePhase.won : DisposePhase → Bool
  | .remote | .releasing _ | .released _ => true
  | _ => false

def DisposePhase.isReleased : DisposePhase → Bool
  | .released _ => true
  | _ => false

/-- Past the exchange and not yet at the release. -/
def DisposePhase.underWay : DisposePhase → Bool
  | .remote | .releasing _ => true
  | _ => false

def DisposePhase.over : DisposePhase → Bool
  | .released _ | .skipped => true
  | _ => false

/-- How often the slot's calls have decremented its tracker. -/
def JobSlot.decrements (slot : JobSlot) : Nat := slot.calls.countP DisposePhase.isReleased

/-- Its release has not been performed. -/
def JobSlot.held (slot : JobSlot) : Bool := slot.decrements = 0

/-- One call has won the exchange if any has made it. -/
structure JobSlot.Ok (slot : JobSlot) : Prop where
  won : slot.calls.countP DisposePhase.won = if slot.disposed then 1 else 0
  begun : ∀ c ∈ slot.calls, c ≠ .entered → slot.disposed = true

def Acquisition.counts (fold : String → String) (key : String) (a : Acquisition) : Bool :=
  fold a.job.name = key && a.phase.pastSwap

def JobSlot.counts (key : String) (slot : JobSlot) : Bool := slot.tracker = key && slot.held

/-- The acquisitions past the swap and the slots not released, of the tracker under a key. -/
def Gate.holders (fold : String → String) (g : Gate) (key : String) : Nat :=
  g.acquisitions.countP (Acquisition.counts fold key) + g.slots.countP (JobSlot.counts key)

structure GateInv (fold : String → String) (g : Gate) : Prop where
  count : ∀ key, (g.trackers key).elim 0 (·.current) = g.holders fold key
  bound : ∀ key tr, g.trackers key = some tr → tr.current ≤ tr.max
  /-- A swap follows a read below the maximum. -/
  seen : ∀ a ∈ g.acquisitions, ∀ seen, a.phase = .swapping seen →
    ∃ tr, g.trackers (fold a.job.name) = some tr ∧ seen < tr.max
  slots : ∀ slot ∈ g.slots, slot.Ok

/-! ## One step of an acquisition -/

section Acquire
variable {key : String} {tr tr' : ConcurrencyTracker} {a a' : Acquisition} {made : List JobSlot}

/-- What a step of an acquisition does to its tracker and keeps of itself. -/
structure Acquisition.Moves (key : String) (tr : ConcurrencyTracker) (a : Acquisition) (tr' : ConcurrencyTracker) (a' : Acquisition)
    (made : List JobSlot) : Prop where
  job : a'.job = a.job
  max : tr'.max = tr.max
  count : tr'.current = tr.current + (ofFlag a'.phase.pastSwap - ofFlag a.phase.pastSwap) + made.length
  bound : tr.current ≤ tr.max → tr'.current ≤ tr.max
  seen : ∀ seen, a'.phase = .swapping seen → seen < tr.max
  made : ∀ slot ∈ made, slot.tracker = key ∧ slot.calls = [] ∧ slot.disposed = false

/-- A step that leaves the tracker alone, and makes no slot. -/
theorem Acquisition.moves_phase {phase : AcquirePhase} (hp : phase.pastSwap = a.phase.pastSwap)
    (hseen : ∀ seen, phase = .swapping seen → seen < tr.max) : a.Moves key tr tr { a with phase := phase } [] where
  job := rfl
  max := rfl
  count := by
    dsimp only
    rw [hp, List.length_nil]
    omega
  bound h := h
  seen := hseen
  made := by simp

theorem Acquisition.step_moves {act : AcquireAct} (hseen : ∀ seen, a.phase = .swapping seen → seen < tr.max)
    (h : a.step key tr act = some (tr', a', made)) : a.Moves key tr tr' a' made := by
  cases act with
  | getTracker =>
    simp only [Acquisition.step] at h
    split at h <;> cases h
    rename_i hp
    exact moves_phase (by rw [hp]; rfl) (by simp)
  | read =>
    simp only [Acquisition.step] at h
    split at h
    · rename_i hp
      split at h <;> cases h
      · exact moves_phase (by rw [hp]; rfl) (by simp)
      · rename_i hlt
        refine moves_phase (by rw [hp]; rfl) fun seen hs => ?_
        cases hs
        omega
    · cases h
  | swap =>
    simp only [Acquisition.step] at h
    split at h
    · rename_i seen hp
      have hlt := hseen seen hp
      have hbefore : a.phase.pastSwap = false := by rw [hp]; rfl
      split at h
      · rename_i hcur
        split at h <;> cases h
        · refine ⟨rfl, rfl, ?_, fun _ => ?_, by simp, by simp⟩
          · rw [hbefore]
            simp only [AcquirePhase.pastSwap, ofFlag_true, ofFlag_false, List.length_nil]
            omega
          · dsimp only
            omega
        · -- The count passes from the acquisition to the slot at once.
          refine ⟨rfl, rfl, ?_, fun _ => ?_, by simp, by simp⟩
          · rw [hbefore]
            simp only [AcquirePhase.pastSwap, ofFlag_false, List.length_singleton]
            omega
          · dsimp only
            omega
      · cases h
        exact moves_phase (by rw [hp]; rfl) (by simp)
    · cases h
  | coordinator answer =>
    simp only [Acquisition.step] at h
    split at h
    · rename_i hp
      have hbefore : a.phase.pastSwap = true := by rw [hp]; rfl
      cases answer with
      | granted =>
        cases h
        refine ⟨rfl, rfl, ?_, fun hb => hb, by simp, by simp⟩
        rw [hbefore]
        simp only [AcquirePhase.pastSwap, ofFlag_true, ofFlag_false, List.length_singleton]
        omega
      | refused =>
        cases h
        exact moves_phase (by rw [hp]; rfl) (by simp)
      | threw =>
        cases h
        exact moves_phase (by rw [hp]; rfl) (by simp)
    · cases h
  | rollback =>
    simp only [Acquisition.step] at h
    split at h <;> cases h
    rename_i threw hp
    have hbefore : a.phase.pastSwap = true := by rw [hp]; rfl
    have hafter : (if threw then AcquirePhase.threw else .refused).pastSwap = false := by cases threw <;> rfl
    refine ⟨rfl, rfl, ?_, fun hb => ?_, fun seen hs => ?_, by simp⟩
    · simp only [ConcurrencyTracker.release, hbefore, hafter, ofFlag_true, ofFlag_false, List.length_nil]
      omega
    · simp only [ConcurrencyTracker.release]
      omega
    · cases threw <;> cases hs

end Acquire

/-! ## One step of a disposal -/

section Dispose
variable {tr tr' : ConcurrencyTracker} {slot slot' : JobSlot} {j : Nat}

/-- What a step of a slot's call does to the slot's tracker and keeps of the slot. -/
structure JobSlot.Moves (tr : ConcurrencyTracker) (slot : JobSlot) (tr' : ConcurrencyTracker) (slot' : JobSlot) : Prop where
  tracker : slot'.tracker = slot.tracker
  max : tr'.max = tr.max
  count : tr'.current = tr.current + (ofFlag slot'.held - ofFlag slot.held)
  bound : tr'.current ≤ tr.current
  ok : slot'.Ok

/-- A call that won has released or is on its way there. -/
theorem countP_won (calls : List DisposePhase) :
    calls.countP DisposePhase.won = calls.countP DisposePhase.isReleased + calls.countP DisposePhase.underWay := by
  induction calls with
  | nil => rfl
  | cons c calls ih =>
    have hc : (if c.won then 1 else 0) = (if c.isReleased then 1 else 0) + if c.underWay then 1 else 0 := by
      cases c <;> rfl
    rw [List.countP_cons, List.countP_cons, List.countP_cons, ih, hc]
    omega

/-- Of the decrements of a slot, one is made or under way once it is disposed of, and none before. -/
theorem JobSlot.Ok.decrements (hok : slot.Ok) :
    slot.decrements + slot.calls.countP DisposePhase.underWay = if slot.disposed then 1 else 0 := by
  rw [← hok.won, countP_won]
  rfl

/-- A member's new value that `p` takes as it took the old one. -/
theorem countP_set_eq {α : Type} {p : α → Bool} {l : List α} {i : Nat} {a b : α} (h : l[i]? = some a) (hp : p b = p a) :
    (l.set i b).countP p = l.countP p := by
  have hset := @countP_set _ p l i a b h
  rw [hp] at hset
  omega

theorem JobSlot.held_congr (h : slot'.decrements = slot.decrements) : slot'.held = slot.held := by
  unfold JobSlot.held
  rw [h]

/-- A step of a call of a slot that is disposed of, short of the release. -/
theorem JobSlot.moves_call {c c' : DisposePhase} (hok : slot.Ok) (hj : slot.calls[j]? = some c) (hd : slot.disposed = true)
    (hwon : c'.won = c.won) (hreleased : c'.isReleased = c.isReleased) :
    slot.Moves tr tr { slot with calls := slot.calls.set j c' } where
  tracker := rfl
  max := rfl
  count := by
    have hheld : ({ slot with calls := slot.calls.set j c' } : JobSlot).held = slot.held :=
      held_congr (countP_set_eq hj hreleased)
    rw [hheld]
    omega
  bound := Int.le_refl _
  ok := by
    refine ⟨?_, fun _ _ _ => hd⟩
    dsimp only
    rw [countP_set_eq hj hwon]
    exact hok.won

theorem JobSlot.step_moves {act : DisposeAct} (hok : slot.Ok) (h : slot.step tr j act = some (tr', slot')) :
    slot.Moves tr tr' slot' := by
  cases act with
  | exchange =>
    simp only [JobSlot.step] at h
    split at h
    · rename_i hj
      split at h <;> cases h
      · rename_i hd
        exact moves_call hok hj hd rfl rfl
      · rename_i hd
        rw [Bool.not_eq_true] at hd
        have hwins : (if slot.hasRemote then DisposePhase.remote else .releasing false).won = true := by
          cases slot.hasRemote <;> rfl
        have hreleased : (if slot.hasRemote then DisposePhase.remote else .releasing false).isReleased = false := by
          cases slot.hasRemote <;> rfl
        generalize (if slot.hasRemote then DisposePhase.remote else .releasing false) = c at hwins hreleased ⊢
        have hheld : ({ slot with disposed := true, calls := slot.calls.set j c } : JobSlot).held = slot.held :=
          held_congr (countP_set_eq hj hreleased)
        refine ⟨rfl, rfl, ?_, Int.le_refl _, ?_, fun _ _ _ => rfl⟩
        · rw [hheld]
          omega
        · have hset := @countP_set _ DisposePhase.won _ _ _ c hj
          have hwon := hok.won
          rw [hd, if_neg Bool.false_ne_true] at hwon
          rw [hwins, hwon] at hset
          simp only [DisposePhase.won, ofFlag_true, ofFlag_false] at hset
          dsimp only
          rw [if_pos rfl]
          omega
    · cases h
  | remote threw =>
    simp only [JobSlot.step] at h
    split at h <;> cases h
    rename_i hj
    exact moves_call hok hj (hok.begun _ (List.mem_of_getElem? hj) (by simp)) rfl rfl
  | release =>
    simp only [JobSlot.step] at h
    split at h <;> cases h
    rename_i threw hj
    have hd := hok.begun _ (List.mem_of_getElem? hj) (by simp)
    have hok' : ({ slot with calls := slot.calls.set j (.released threw) } : JobSlot).Ok := by
      refine ⟨?_, fun _ _ _ => hd⟩
      dsimp only
      rw [countP_set_eq (b := .released threw) hj rfl]
      exact hok.won
    -- One call has won, and it is this one, so no other has released.
    have hone : (slot.calls.set j (.released threw)).countP DisposePhase.isReleased ≤ 1 := by
      have hdecrements := hok'.decrements
      unfold JobSlot.decrements at hdecrements
      dsimp only at hdecrements
      rw [hd, if_pos rfl] at hdecrements
      omega
    have hset := @countP_set _ DisposePhase.isReleased _ _ _ (.released threw) hj
    have hbefore : slot.held = true := by
      unfold JobSlot.held JobSlot.decrements
      simp only [DisposePhase.isReleased, ofFlag_true, ofFlag_false] at hset
      rw [decide_eq_true_eq]
      omega
    have hafter : ({ slot with calls := slot.calls.set j (.released threw) } : JobSlot).held = false := by
      unfold JobSlot.held JobSlot.decrements
      simp only [DisposePhase.isReleased, ofFlag_true, ofFlag_false] at hset
      rw [decide_eq_false_iff_not]
      dsimp only
      omega
    refine ⟨rfl, rfl, ?_, ?_, hok'⟩
    · rw [hbefore, hafter]
      simp only [ConcurrencyTracker.release, ofFlag_true, ofFlag_false]
      omega
    · simp only [ConcurrencyTracker.release]
      omega

end Dispose

/-! ## The gate -/

section Gate
variable {fold : String → String} {registry : List JobDescriptor} {g g' : Gate}

theorem gateInv_empty : GateInv fold .empty where
  count _ := rfl
  bound := by simp [Gate.empty]
  seen := by simp [Gate.empty]
  slots := by simp [Gate.empty]

theorem Gate.acquisition_cases {i : Nat} {act : AcquireAct} (h : g.step fold registry (.acquisition i act) = some g') :
    ∃ a tr a' made, g.acquisitions[i]? = some a ∧ a.step (fold a.job.name) (g.getTracker fold a.job) act = some (tr, a', made) ∧
      g' = { trackers := Function.update g.trackers (fold a.job.name) (some tr), acquisitions := g.acquisitions.set i a',
             slots := g.slots ++ made } := by
  obtain ⟨a, ha, h⟩ := Option.bind_eq_some_iff.1 h
  obtain ⟨⟨tr, a', made⟩, hs, h⟩ := Option.bind_eq_some_iff.1 h
  cases h
  exact ⟨a, tr, a', made, ha, hs, rfl⟩

theorem Gate.disposal_cases {i j : Nat} {act : DisposeAct} (h : g.step fold registry (.disposal i j act) = some g') :
    ∃ slot tr tr' slot', g.slots[i]? = some slot ∧ g.trackers slot.tracker = some tr ∧ slot.step tr j act = some (tr', slot') ∧
      g' = { g with trackers := Function.update g.trackers slot.tracker (some tr'), slots := g.slots.set i slot' } := by
  obtain ⟨slot, hslot, h⟩ := Option.bind_eq_some_iff.1 h
  obtain ⟨tr, htr, h⟩ := Option.bind_eq_some_iff.1 h
  obtain ⟨⟨tr', slot'⟩, hs, h⟩ := Option.bind_eq_some_iff.1 h
  cases h
  exact ⟨slot, tr, tr', slot', hslot, htr, hs, rfl⟩

/-- What a call has of its tracker: the count so far, below the maximum. -/
theorem GateInv.tracker (hi : GateInv fold g) (job : JobDescriptor) :
    (g.getTracker fold job).current = g.holders fold (fold job.name) ∧
      (g.getTracker fold job).current ≤ (g.getTracker fold job).max := by
  rw [← hi.count]
  unfold Gate.getTracker
  cases htr : g.trackers (fold job.name) with
  | none =>
    refine ⟨rfl, ?_⟩
    unfold ConcurrencyTracker.new intMaxValue
    dsimp only [Option.getD_none]
    split <;> omega
  | some tr => exact ⟨rfl, hi.bound _ tr htr⟩

/-- A step of an acquisition moves the count of its own key only. -/
theorem holders_acquisition {i : Nat} {a a' : Acquisition} {tr tr' : ConcurrencyTracker} {made : List JobSlot}
    {trackers : String → Option ConcurrencyTracker} (ha : g.acquisitions[i]? = some a)
    (hm : a.Moves (fold a.job.name) tr tr' a' made) (key : String) :
    ((Gate.mk trackers (g.acquisitions.set i a') (g.slots ++ made)).holders fold key : Int) =
      g.holders fold key + if key = fold a.job.name then tr'.current - tr.current else 0 := by
  have hcount := hm.count
  unfold Gate.holders
  have hset := @countP_set _ (Acquisition.counts fold key) _ _ _ a' ha
  rw [List.countP_append]
  by_cases hk : key = fold a.job.name
  · have hmade : made.countP (JobSlot.counts key) = made.length := by
      refine List.countP_eq_length.2 fun slot hslot => ?_
      obtain ⟨htracker, hcalls, -⟩ := hm.made slot hslot
      simp [JobSlot.counts, htracker, hk, JobSlot.held, JobSlot.decrements, hcalls]
    have hnew : a'.counts fold key = a'.phase.pastSwap := by simp [Acquisition.counts, hm.job, hk]
    have hold : a.counts fold key = a.phase.pastSwap := by simp [Acquisition.counts, hk]
    rw [hnew, hold] at hset
    rw [if_pos hk, hmade]
    push_cast
    omega
  · have hmade : made.countP (JobSlot.counts key) = 0 := by
      refine List.countP_eq_zero.2 fun slot hslot => ?_
      simp [JobSlot.counts, (hm.made slot hslot).1, Ne.symm hk]
    have hnew : a'.counts fold key = false := by simp [Acquisition.counts, hm.job, Ne.symm hk]
    have hold : a.counts fold key = false := by simp [Acquisition.counts, Ne.symm hk]
    rw [hnew, hold] at hset
    rw [if_neg hk, hmade]
    push_cast
    omega

/-- A step of a slot moves the count of its own tracker only. -/
theorem holders_slot {i : Nat} {slot slot' : JobSlot} {trackers : String → Option ConcurrencyTracker} (hslot : g.slots[i]? = some slot)
    (htracker : slot'.tracker = slot.tracker) (key : String) :
    ((Gate.mk trackers g.acquisitions (g.slots.set i slot')).holders fold key : Int) =
      g.holders fold key + if key = slot.tracker then ofFlag slot'.held - ofFlag slot.held else 0 := by
  unfold Gate.holders
  have hset := @countP_set _ (JobSlot.counts key) _ _ _ slot' hslot
  by_cases hk : key = slot.tracker
  · have hnew : slot'.counts key = slot'.held := by simp [JobSlot.counts, htracker, hk]
    have hold : slot.counts key = slot.held := by simp [JobSlot.counts, hk]
    rw [hnew, hold] at hset
    rw [if_pos hk]
    push_cast
    omega
  · have hnew : slot'.counts key = false := by simp [JobSlot.counts, htracker, Ne.symm hk]
    have hold : slot.counts key = false := by simp [JobSlot.counts, Ne.symm hk]
    rw [hnew, hold] at hset
    rw [if_neg hk]
    push_cast
    omega

theorem gateInv_acquisition {i : Nat} {act : AcquireAct} (hi : GateInv fold g)
    (h : g.step fold registry (.acquisition i act) = some g') : GateInv fold g' := by
  obtain ⟨a, tr, a', made, ha, hs, rfl⟩ := Gate.acquisition_cases h
  obtain ⟨hcurrent, hbound⟩ := hi.tracker a.job
  have hseen : ∀ seen, a.phase = .swapping seen → seen < (g.getTracker fold a.job).max := by
    intro seen hp
    obtain ⟨old, hold, hlt⟩ := hi.seen a (List.mem_of_getElem? ha) seen hp
    unfold Gate.getTracker
    rw [hold]
    exact hlt
  have hm := Acquisition.step_moves hseen hs
  refine ⟨fun key => ?_, fun key tr₁ htr₁ => ?_, fun x hx seen hp => ?_, fun slot hslot => ?_⟩
  · rw [holders_acquisition ha hm]
    dsimp only
    by_cases hk : key = fold a.job.name
    · rw [hk, Function.update_self, if_pos rfl, ← hcurrent]
      dsimp only [Option.elim]
      omega
    · rw [Function.update_of_ne hk, if_neg hk, hi.count, Int.add_zero]
  · dsimp only at htr₁
    by_cases hk : key = fold a.job.name
    · rw [hk, Function.update_self] at htr₁
      cases htr₁
      rw [hm.max]
      exact hm.bound hbound
    · rw [Function.update_of_ne hk] at htr₁
      exact hi.bound key tr₁ htr₁
  · dsimp only at hx ⊢
    rcases List.mem_or_eq_of_mem_set hx with hx | rfl
    · obtain ⟨old, hold, hlt⟩ := hi.seen x hx seen hp
      by_cases hk : fold x.job.name = fold a.job.name
      · refine ⟨tr, by rw [hk, Function.update_self], ?_⟩
        rw [hm.max]
        unfold Gate.getTracker
        rw [← hk, hold]
        exact hlt
      · exact ⟨old, by rw [Function.update_of_ne hk, hold], hlt⟩
    · refine ⟨tr, by rw [hm.job, Function.update_self], ?_⟩
      rw [hm.max]
      exact hm.seen seen hp
  · rcases List.mem_append.1 hslot with hslot | hslot
    · exact hi.slots slot hslot
    · obtain ⟨-, hcalls, hfresh⟩ := hm.made slot hslot
      exact ⟨by rw [hcalls, hfresh]; rfl, by simp [hcalls]⟩

theorem gateInv_disposal {i j : Nat} {act : DisposeAct} (hi : GateInv fold g)
    (h : g.step fold registry (.disposal i j act) = some g') : GateInv fold g' := by
  obtain ⟨slot, tr, tr', slot', hslot, htr, hs, rfl⟩ := Gate.disposal_cases h
  have hm := JobSlot.step_moves (hi.slots slot (List.mem_of_getElem? hslot)) hs
  refine ⟨fun key => ?_, fun key tr₁ htr₁ => ?_, fun x hx seen hp => ?_, fun x hx => ?_⟩
  · rw [holders_slot hslot hm.tracker, ← hi.count]
    dsimp only
    by_cases hk : key = slot.tracker
    · rw [hk, Function.update_self, if_pos rfl, htr]
      exact hm.count
    · rw [Function.update_of_ne hk, if_neg hk, Int.add_zero]
  · dsimp only at htr₁
    by_cases hk : key = slot.tracker
    · rw [hk, Function.update_self] at htr₁
      cases htr₁
      rw [hm.max]
      exact Int.le_trans hm.bound (hi.bound _ tr htr)
    · rw [Function.update_of_ne hk] at htr₁
      exact hi.bound key tr₁ htr₁
  · dsimp only at hx ⊢
    obtain ⟨old, hold, hlt⟩ := hi.seen x hx seen hp
    by_cases hk : fold x.job.name = slot.tracker
    · refine ⟨tr', by rw [hk, Function.update_self], ?_⟩
      rw [hk, htr] at hold
      cases hold
      rw [hm.max]
      exact hlt
    · exact ⟨old, by rw [Function.update_of_ne hk, hold], hlt⟩
  · rcases List.mem_or_eq_of_mem_set hx with hx | rfl
    · exact hi.slots x hx
    · exact hm.ok

/-- A further call on a slot: nothing is counted or won by it yet. -/
theorem gateInv_disposeAsync {i : Nat} (hi : GateInv fold g) (h : g.step fold registry (.disposeAsync i) = some g') :
    GateInv fold g' := by
  obtain ⟨slot, hslot, h⟩ := Option.bind_eq_some_iff.1 h
  cases h
  have hok := hi.slots slot (List.mem_of_getElem? hslot)
  have hheld : ({ slot with calls := slot.calls ++ [.entered] } : JobSlot).held = slot.held := by
    apply JobSlot.held_congr
    unfold JobSlot.decrements
    rw [List.countP_append]
    rfl
  refine ⟨fun key => ?_, hi.bound, hi.seen, fun x hx => ?_⟩
  · have hholders := @holders_slot fold g i slot { slot with calls := slot.calls ++ [.entered] } g.trackers hslot rfl key
    rw [hheld, Int.sub_self, ite_self, Int.add_zero] at hholders
    rw [hholders, ← hi.count]
  · rcases List.mem_or_eq_of_mem_set hx with hx | rfl
    · exact hi.slots x hx
    · refine ⟨?_, fun c hc hne => ?_⟩
      · dsimp only
        rw [List.countP_append, hok.won]
        rfl
      · rcases List.mem_append.1 hc with hc | hc
        · exact hok.begun c hc hne
        · exact absurd (List.mem_singleton.1 hc) hne

theorem gateInv_step {e : GateEvent} (hi : GateInv fold g) (h : g.step fold registry e = some g') : GateInv fold g' := by
  cases e with
  | tryAcquireAsync job =>
    simp only [Gate.step] at h
    split at h <;> cases h
    refine ⟨fun key => ?_, hi.bound, fun a ha seen hp => ?_, hi.slots⟩
    · rw [hi.count]
      unfold Gate.holders
      have hnew : Acquisition.counts fold key ⟨job, .entered⟩ = false := by simp [Acquisition.counts, AcquirePhase.pastSwap]
      rw [List.countP_append, List.countP_singleton, hnew]
      rfl
    · rcases List.mem_append.1 ha with ha | ha
      · exact hi.seen a ha seen hp
      · rw [List.mem_singleton.1 ha] at hp
        cases hp
  | acquisition i act => exact gateInv_acquisition hi h
  | disposeAsync i => exact gateInv_disposeAsync hi h
  | disposal i j act => exact gateInv_disposal hi h

theorem gateInv_exec {es : List GateEvent} (h : exec (Gate.step fold registry) .empty es = some g) : GateInv fold g :=
  exec_inv (GateInv fold) (fun _ _ _ hi hs => gateInv_step hi hs) gateInv_empty h

/-- All its calls over, a slot that was disposed of has given its part back. -/
theorem JobSlot.Ok.decrements_eq {slot : JobSlot} (hok : slot.Ok) (hcalls : slot.calls ≠ [])
    (hover : ∀ c ∈ slot.calls, c.over = true) : slot.decrements = 1 := by
  obtain ⟨c, hc⟩ := List.exists_mem_of_ne_nil _ hcalls
  have hd : slot.disposed = true := by
    refine hok.begun c hc fun he => ?_
    have hend := hover c hc
    rw [he] at hend
    cases hend
  have hnone : slot.calls.countP DisposePhase.underWay = 0 := by
    refine List.countP_eq_zero.2 fun c hc hway => ?_
    have hend := hover c hc
    cases c with
    | remote => cases hend
    | releasing _ => cases hend
    | _ => cases hway
  have hdecrements := hok.decrements
  rw [hnone, hd, if_pos rfl] at hdecrements
  exact hdecrements

end Gate

/-- A tracker's count is the number of its acquisitions past the swap and not
rolled back, and of its slots not released; it is between zero and the maximum.
A slot decrements its tracker once when a call disposes of it, and never again. -/
theorem slot_gate_conserves (fold : String → String) (registry : List JobDescriptor) (es : List GateEvent) (g : Gate)
    (hrun : exec (Gate.step fold registry) .empty es = some g) :
    (∀ key tr, g.trackers key = some tr →
      tr.current = g.acquisitions.countP (fun a => fold a.job.name = key && a.phase.pastSwap) +
          g.slots.countP (fun slot => slot.tracker = key && slot.decrements = 0) ∧
        0 ≤ tr.current ∧ tr.current ≤ tr.max) ∧
    ∀ slot ∈ g.slots,
      slot.decrements + slot.calls.countP DisposePhase.underWay = (if slot.disposed then 1 else 0) ∧
      (slot.calls ≠ [] → (∀ c ∈ slot.calls, c.over = true) → slot.decrements = 1) := by
  have hi := gateInv_exec hrun
  constructor
  · intro key tr htr
    have hcount := hi.count key
    rw [htr] at hcount
    have hholders : tr.current = (g.holders fold key : Nat) := hcount
    refine ⟨?_, ?_, hi.bound key tr htr⟩
    · rw [hholders]
      unfold Gate.holders
      push_cast
      rfl
    · rw [hholders]
      exact Int.natCast_nonneg _
  · intro slot hslot
    have hok := hi.slots slot hslot
    exact ⟨hok.decrements, hok.decrements_eq⟩

def report : JobDescriptor := describe ⟨"report", "0 3 * * *", 1, 0, true, true⟩ "Jobs" ⟨"Run", true, []⟩

/-- Two calls for one slot, of which the second loses the swap and is refused.
Of two disposals the second is first; the release of the remote half throws. -/
def twoOfEach : List GateEvent :=
  [.tryAcquireAsync report, .tryAcquireAsync report, .acquisition 0 .getTracker, .acquisition 1 .getTracker,
    .acquisition 0 .read, .acquisition 1 .read, .acquisition 0 .swap, .acquisition 1 .swap,
    .acquisition 0 (.coordinator .granted), .acquisition 1 .read, .disposeAsync 0, .disposeAsync 0,
    .disposal 0 1 .exchange, .disposal 0 0 .exchange, .disposal 0 1 (.remote true), .disposal 0 1 .release]

theorem slot_gate_conserves_twoOfEach :
    ∃ g, exec (Gate.step id [report]) .empty twoOfEach = some g ∧
      g.slots.map JobSlot.calls = [[.skipped, .released true]] ∧
      (∀ slot ∈ g.slots, slot.decrements = 1) ∧ (g.trackers "report").map (·.current) = some 0 := by
  refine ⟨_, rfl, rfl, ?_, ?_⟩
  · intro slot hslot
    obtain ⟨-, hover⟩ := (slot_gate_conserves id [report] twoOfEach _ rfl).2 slot hslot
    obtain rfl := List.mem_singleton.1 hslot
    exact hover (by decide) (by decide)
  · exact congrArg some ((slot_gate_conserves id [report] twoOfEach _ rfl).1 "report" _ rfl).1

end DuckRun.Runtime.JobSlotGate
