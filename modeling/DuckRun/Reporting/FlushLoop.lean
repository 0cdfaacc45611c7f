import DuckRun.Lib.Machine
/-!
# The flush loops of the reporter

`FlushRunsAsync` and `FlushLogsAsync` are one loop over an unbounded channel:
wait for a record, read up to a batch, send it as one message, wait a little.
Any number of writers write meanwhile. `accepted` and `sends` record what the
channel took in and what became of it.

`_client` is set before the loops are started, so the loop never finds it null.
-/

namespace DuckRun.Reporting

open DuckRun.Lib

/-- How the call that sends a batch ends. -/
inductive SendOutcome where
  | delivered
  /-- An exception, which is logged. The batch is not sent again. -/
  | failed
  /-- An `OperationCanceledException`. -/
  | cancelled
  deriving DecidableEq, Repr

inductive FlushPhase (α : Type) where
  /-- In `WaitToReadAsync`. -/
  | waiting
  | reading (batch : List α)
  | sending (batch : List α)
  /-- In `Task.Delay`. -/
  | delaying
  | exited

structure FlushLoop (α : Type) where
  channel : List α
  /-- `TryComplete` has been called. -/
  completed : Bool
  /-- `_stop` is cancelled. -/
  cancelled : Bool
  phase : FlushPhase α
  /-- Every record `TryWrite` took, in order. -/
  accepted : List α
  /-- The messages sent, in order, and how each call ended. -/
  sends : List (List α × SendOutcome)

inductive FlushEvent (α : Type) where
  | tryWrite (record : α)
  /-- `WaitToReadAsync` returns. -/
  | wake
  /-- The inner `while` comes to its condition. -/
  | tryRead
  | sendReturns (outcome : SendOutcome)
  | delayEnds
  | cancel
  | tryComplete

section Loop
variable {α : Type}

def FlushLoop.start : FlushLoop α := ⟨[], false, false, .waiting, [], []⟩

/-- What the loop has read and not yet sent. -/
def FlushPhase.batch : FlushPhase α → List α
  | .reading batch | .sending batch => batch
  | _ => []

/-- What is still to be sent, oldest first. -/
def FlushLoop.unsent (loop : FlushLoop α) : List α := loop.phase.batch ++ loop.channel

/-- The inner `while` is over. -/
def FlushPhase.readEnds : List α → FlushPhase α
  | [] => .waiting
  | record :: batch => .sending (record :: batch)

/-- One step, for batches of up to `size` records. -/
def FlushLoop.step (size : Nat) (loop : FlushLoop α) : FlushEvent α → Option (FlushLoop α)
  | .tryWrite record =>
    if loop.completed then some loop
    else some { loop with channel := loop.channel ++ [record], accepted := loop.accepted ++ [record] }
  | .wake =>
    match loop.phase with
    | .waiting =>
      if loop.cancelled then some { loop with phase := .exited }
      else
        match loop.channel with
        | [] => if loop.completed then some { loop with phase := .exited } else none
        | _ :: _ => some { loop with phase := .reading [] }
    | _ => none
  | .tryRead =>
    match loop.phase with
    | .reading batch =>
      match loop.channel with
      | [] => some { loop with phase := .readEnds batch }
      | record :: channel =>
        if batch.length < size then some { loop with channel := channel, phase := .reading (batch ++ [record]) }
        else some { loop with phase := .readEnds batch }
    | _ => none
  | .sendReturns outcome =>
    match loop.phase with
    | .sending batch =>
      some { loop with
        phase := if outcome = .cancelled then .exited else .delaying
        sends := loop.sends ++ [(batch, outcome)] }
    | _ => none
  | .delayEnds =>
    match loop.phase with
    | .delaying => some { loop with phase := if loop.cancelled then .exited else .waiting }
    | _ => none
  | .cancel => some { loop with cancelled := true }
  | .tryComplete => some { loop with completed := true }

/-- Every record accepted is in one message, in the batch, or in the channel, in
the order of the writes. -/
structure Flushing (size : Nat) (loop : FlushLoop α) : Prop where
  conserved : (loop.sends.map Prod.fst).flatten ++ loop.unsent = loop.accepted
  bounded : ∀ m ∈ loop.sends, m.1 ≠ [] ∧ m.1.length ≤ size
  batch_le : loop.phase.batch.length ≤ size
  sending : ∀ batch, loop.phase = .sending batch → batch ≠ []

theorem readEnds_batch (batch : List α) : (FlushPhase.readEnds batch).batch = batch := by
  cases batch <;> rfl

theorem readEnds_sending {batch batch' : List α} (h : FlushPhase.readEnds batch = .sending batch') : batch' ≠ [] := by
  cases batch with
  | nil => cases h
  | cons record batch =>
    cases h
    nofun

theorem flushing_start (size : Nat) : Flushing size (FlushLoop.start (α := α)) where
  conserved := rfl
  bounded := nofun
  batch_le := Nat.zero_le _
  sending := nofun

/-- A change of phase that drops nothing. -/
theorem flushing_phase {size : Nat} {loop : FlushLoop α} (hi : Flushing size loop) {phase : FlushPhase α}
    (hbatch : phase.batch = loop.phase.batch) (hsending : ∀ batch, phase = .sending batch → batch ≠ []) :
    Flushing size { loop with phase := phase } where
  conserved := by
    have hconserved := hi.conserved
    unfold FlushLoop.unsent at hconserved ⊢
    rw [hbatch]
    exact hconserved
  bounded := hi.bounded
  batch_le := hbatch ▸ hi.batch_le
  sending := hsending

theorem flushing_step {size : Nat} {loop loop' : FlushLoop α} {e : FlushEvent α} (hi : Flushing size loop)
    (h : loop.step size e = some loop') : Flushing size loop' := by
  cases e with
  | tryWrite record =>
    simp only [FlushLoop.step] at h
    split at h <;> cases h
    · exact hi
    · refine { hi with conserved := ?_ }
      rw [← hi.conserved]
      simp only [FlushLoop.unsent, List.append_assoc]
  | wake =>
    simp only [FlushLoop.step] at h
    split at h
    · rename_i hphase
      have hbatch : loop.phase.batch = [] := by
        rw [hphase]
        rfl
      split at h
      · cases h
        exact flushing_phase hi hbatch.symm nofun
      · split at h
        · split at h <;> cases h
          exact flushing_phase hi hbatch.symm nofun
        · cases h
          exact flushing_phase hi hbatch.symm nofun
    · cases h
  | tryRead =>
    simp only [FlushLoop.step] at h
    split at h
    · rename_i batch hphase
      have hbatch : loop.phase.batch = batch := by
        rw [hphase]
        rfl
      split at h
      · cases h
        exact flushing_phase hi ((readEnds_batch batch).trans hbatch.symm) fun _ => readEnds_sending
      · rename_i record channel hchannel
        split at h <;> cases h
        · rename_i hlt
          -- The record goes from the channel to the end of the batch, which has room for it.
          refine { hi with conserved := ?_, batch_le := ?_, sending := nofun }
          · have hconserved := hi.conserved
            unfold FlushLoop.unsent at hconserved ⊢
            rw [hbatch, hchannel] at hconserved
            rw [← hconserved]
            simp [FlushPhase.batch]
          · simp only [FlushPhase.batch, List.length_append, List.length_singleton]
            omega
        · exact flushing_phase hi ((readEnds_batch batch).trans hbatch.symm) fun _ => readEnds_sending
    · cases h
  | sendReturns outcome =>
    simp only [FlushLoop.step] at h
    split at h
    · rename_i batch hphase
      cases h
      have hbatch : loop.phase.batch = batch := by
        rw [hphase]
        rfl
      have hnone : (if outcome = .cancelled then FlushPhase.exited else FlushPhase.delaying (α := α)).batch = [] := by
        split <;> rfl
      -- The batch becomes a message whatever the outcome; none is put back.
      refine { conserved := ?_, bounded := ?_, batch_le := ?_, sending := ?_ }
      · have hconserved := hi.conserved
        unfold FlushLoop.unsent at hconserved ⊢
        rw [hbatch] at hconserved
        rw [← hconserved]
        simp [hnone]
      · intro m hm
        rcases List.mem_append.1 hm with hm | hm
        · exact hi.bounded m hm
        · rw [List.mem_singleton.1 hm]
          exact ⟨hi.sending batch hphase, hbatch ▸ hi.batch_le⟩
      · rw [hnone]
        exact Nat.zero_le _
      · intro batch' hsending
        split at hsending <;> cases hsending
    · cases h
  | delayEnds =>
    simp only [FlushLoop.step] at h
    split at h
    · rename_i hphase
      cases h
      refine flushing_phase hi ?_ ?_
      · rw [hphase]
        split <;> rfl
      · intro batch hsending
        split at hsending <;> cases hsending
    · cases h
  | cancel =>
    cases h
    exact { hi with }
  | tryComplete =>
    cases h
    exact { hi with }

/-! ## What a step records -/

/-- What an event puts into the channel. -/
def FlushEvent.accepts (loop : FlushLoop α) : FlushEvent α → List α
  | .tryWrite record => if loop.completed then [] else [record]
  | _ => []

/-- The message an event concludes. -/
def FlushEvent.sends (loop : FlushLoop α) : FlushEvent α → List (List α × SendOutcome)
  | .sendReturns outcome => [(loop.phase.batch, outcome)]
  | _ => []

/-- Waking up and reading move records, and record nothing. -/
theorem step_reads {size : Nat} {loop loop' : FlushLoop α} {e : FlushEvent α} (he : e = .wake ∨ e = .tryRead)
    (h : loop.step size e = some loop') : loop'.accepted = loop.accepted ∧ loop'.sends = loop.sends ∧
      loop'.cancelled = loop.cancelled ∧ loop'.completed = loop.completed := by
  rcases he with rfl | rfl
  · simp only [FlushLoop.step] at h
    split at h
    · split at h
      · cases h
        exact ⟨rfl, rfl, rfl, rfl⟩
      · split at h
        · split at h <;> cases h
          exact ⟨rfl, rfl, rfl, rfl⟩
        · cases h
          exact ⟨rfl, rfl, rfl, rfl⟩
    · cases h
  · simp only [FlushLoop.step] at h
    split at h
    · split at h
      · cases h
        exact ⟨rfl, rfl, rfl, rfl⟩
      · split at h <;> cases h <;> exact ⟨rfl, rfl, rfl, rfl⟩
    · cases h

/-- The records grow by what the event accepts and sends, and a stop is not taken back. -/
theorem step_effects {size : Nat} {loop loop' : FlushLoop α} {e : FlushEvent α} (h : loop.step size e = some loop') :
    loop'.accepted = loop.accepted ++ e.accepts loop ∧ loop'.sends = loop.sends ++ e.sends loop ∧
      (loop'.cancelled = false → loop.cancelled = false) ∧ (loop'.completed = false → loop.completed = false) := by
  have hnone : ∀ {β : Type} (l : List β), l = l ++ [] := fun l => (List.append_nil l).symm
  cases e with
  | tryWrite record =>
    simp only [FlushLoop.step] at h
    split at h <;> cases h <;> rename_i hcompleted
    · refine ⟨?_, hnone _, id, id⟩
      simp [FlushEvent.accepts, hcompleted]
    · refine ⟨?_, hnone _, id, id⟩
      simp [FlushEvent.accepts, hcompleted]
  | wake =>
    obtain ⟨haccepted, hsends, hcancelled, hcompleted⟩ := step_reads (.inl rfl) h
    exact ⟨haccepted.trans (hnone _), hsends.trans (hnone _), hcancelled.symm.trans, hcompleted.symm.trans⟩
  | tryRead =>
    obtain ⟨haccepted, hsends, hcancelled, hcompleted⟩ := step_reads (.inr rfl) h
    exact ⟨haccepted.trans (hnone _), hsends.trans (hnone _), hcancelled.symm.trans, hcompleted.symm.trans⟩
  | sendReturns outcome =>
    simp only [FlushLoop.step] at h
    split at h <;> cases h
    rename_i hphase
    refine ⟨hnone _, ?_, id, id⟩
    simp [FlushEvent.sends, hphase, FlushPhase.batch]
  | delayEnds =>
    simp only [FlushLoop.step] at h
    split at h <;> cases h
    exact ⟨hnone _, hnone _, id, id⟩
  | cancel =>
    cases h
    exact ⟨hnone _, hnone _, nofun, id⟩
  | tryComplete =>
    cases h
    exact ⟨hnone _, hnone _, id, nofun⟩

/-! ## Many loops -/

/-- Neither a write nor the end of a call. -/
def FlushEvent.isTurn : FlushEvent α → Bool
  | .tryWrite _ | .sendReturns _ => false
  | _ => true

/-- The messages that were answered. -/
def delivered (sends : List (List α × SendOutcome)) : List (List α × SendOutcome) := sends.filter fun m => m.2 = .delivered

theorem turn_effects {loop : FlushLoop α} {e : FlushEvent α} (h : e.isTurn = true) : e.accepts loop = [] ∧ e.sends loop = [] := by
  cases e with
  | tryWrite | sendReturns => cases h
  | wake | tryRead | delayEnds | cancel | tryComplete => exact ⟨rfl, rfl⟩

theorem delivered_snoc_lost (sends : List (List α × SendOutcome)) {batch : List α} {outcome : SendOutcome}
    (h : outcome ≠ .delivered) : delivered (sends ++ [(batch, outcome)]) = delivered sends := by
  simp [delivered, List.filter_append, h]

/-- A batch the loop holds is of records it accepted. -/
theorem batch_subset {size : Nat} {loop : FlushLoop α} (h : Flushing size loop) {record : α} (hr : record ∈ loop.phase.batch) :
    record ∈ loop.accepted := by
  rw [← h.conserved, FlushLoop.unsent]
  exact List.mem_append_right _ (List.mem_append_left _ hr)

end Loop

end DuckRun.Reporting
