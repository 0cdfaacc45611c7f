import DuckRun.Runtime.JobSlotGate
import DuckRun.Runtime.SlotInvariants
/-!
# Operations at the gate

The threads of a node use the gate as its callers do: each makes one call of
`TryAcquireAsync`, and its body one call of `DisposeAsync` on the slot it got.
So a run of the node is a run of the gate with the same trackers, and what holds
of the gate for any callers holds of the node's trackers.
-/

namespace DuckRun.Runtime.JobSlotGate

open DuckRun.Lib

/-- Thread `i` got the slot; `owner` says whose each slot is. -/
def Owns (slots : List JobSlot) (owner : List Nat) (i : Nat) (slot : JobSlot) : Prop :=
  ∃ k : Nat, owner[k]? = some i ∧ slots[k]? = some slot

/-- Where the gate has thread `i`. -/
def AtGate (slots : List JobSlot) (owner : List Nat) (key : String) (i : Nat) (t : Thread) (phase : AcquirePhase) : Prop :=
  match t.phase with
  | .gate => (phase = .entered ∨ phase = .reading) ∧ t.holdsRemote = false
  | .swap seen => phase = .swapping seen ∧ t.holdsRemote = false
  | .coordinator => phase = .asking
  | .rollback => ∃ threw, phase = .rollingBack threw
  | .over .refused => phase = .refused ∨ phase = .threw
  | .releasing => phase = .acquired ∧ ∃ remote, Owns slots owner i ⟨key, remote, true, [.releasing false]⟩
  | .over .released => phase = .acquired ∧ ∃ remote, Owns slots owner i ⟨key, remote, true, [.released false]⟩
  | _ => phase = .acquired ∧ Owns slots owner i ⟨key, t.holdsRemote, false, []⟩

/-- The node and the gate have the same trackers, and the gate has each thread where it is. -/
structure Refines (fold : String → String) (n : Node) (g : Gate) (owner : List Nat) : Prop where
  trackers : g.trackers = n.trackers
  length : g.acquisitions.length = n.threads.length
  owners : owner.length = g.slots.length
  threads : ∀ i t, n.threads[i]? = some t → ∃ phase, g.acquisitions[i]? = some ⟨t.job, phase⟩ ∧
    AtGate g.slots owner (fold t.job.name) i t phase
  tracked : ∀ slot ∈ g.slots, (g.trackers slot.tracker).isSome = true

section Steps
variable {fold : String → String} {registry : List JobDescriptor} {n : Node} {g : Gate} {owner : List Nat} {i : Nat}
  {t t' : Thread}

theorem refines_empty : Refines fold .empty .empty [] where
  trackers := rfl
  length := rfl
  owners := rfl
  threads := by simp [Node.empty]
  tracked := by simp [Gate.empty]

theorem Refines.getTracker (hr : Refines fold n g owner) (job : JobDescriptor) : g.getTracker fold job = n.getTracker fold job := by
  unfold Gate.getTracker Node.getTracker
  rw [hr.trackers]

theorem atGate_held {slots : List JobSlot} {key : String} {phase : AcquirePhase} (hp : t.phase.holdsRemote = true) :
    AtGate slots owner key i t phase ↔ phase = .acquired ∧ Owns slots owner i ⟨key, t.holdsRemote, false, []⟩ := by
  cases h : t.phase with
  | gate | swap | coordinator | rollback | releasing =>
    rw [h] at hp
    cases hp
  | «over» ending =>
    cases ending with
    | refused | released =>
      rw [h] at hp
      cases hp
    | createThrew | neverStarted => simp only [AtGate, h]
  | holding | queued | creating | ready | executing | disposing => simp only [AtGate, h]

/-- The slots of one thread are all that the gate has of it. -/
theorem AtGate.frame {slots slots' : List JobSlot} {owner' : List Nat} {key : String} {phase : AcquirePhase}
    (h : AtGate slots owner key i t phase)
    (hk : ∀ k : Nat, owner[k]? = some i → owner'[k]? = some i ∧ slots'[k]? = slots[k]?) : AtGate slots' owner' key i t phase := by
  have hown : ∀ slot, Owns slots owner i slot → Owns slots' owner' i slot := by
    rintro slot ⟨k, ho, hslot⟩
    exact ⟨k, (hk k ho).1, (hk k ho).2.trans hslot⟩
  unfold AtGate at h ⊢
  split <;> rename_i hp <;> simp only [hp] at h
  · exact h
  · exact h
  · exact h
  · exact h
  · exact h
  · exact h.imp_right (Exists.imp fun _ => hown _)
  · exact h.imp_right (Exists.imp fun _ => hown _)
  · exact h.imp_right (hown _)

/-! ## A new thread -/

theorem refines_arrive (hr : Refines fold n g owner) (job : JobDescriptor) (source : Source) :
    Refines fold { n with threads := n.threads ++ [.new job source] }
      { g with acquisitions := g.acquisitions ++ [⟨job, .entered⟩] } owner where
  trackers := hr.trackers
  length := by simp [hr.length]
  owners := hr.owners
  threads j t ht := by
    rcases getElem?_snoc_cases ht with ⟨rfl, rfl⟩ | ht
    · exact ⟨.entered, by simp [← hr.length, Thread.new], .inl rfl, rfl⟩
    · obtain ⟨phase, hphase, hat⟩ := hr.threads j t ht
      refine ⟨phase, ?_, hat⟩
      dsimp only
      rw [List.getElem?_append_left (List.getElem?_eq_some_iff.1 hphase).1, hphase]
  tracked := hr.tracked

/-! ## A step of `TryAcquireAsync` -/

theorem step_acquisition {a a' : Acquisition} {act : AcquireAct} {tr : ConcurrencyTracker} {made : List JobSlot}
    (ha : g.acquisitions[i]? = some a)
    (hs : a.step (fold a.job.name) (g.getTracker fold a.job) act = some (tr, a', made)) :
    g.step fold registry (.acquisition i act) = some {
      trackers := Function.update g.trackers (fold a.job.name) (some tr)
      acquisitions := g.acquisitions.set i a'
      slots := g.slots ++ made } := by
  simp [Gate.step, ha, hs]

/-- The gate after a step of thread `i` in its call, that made the slots `made`. -/
theorem refines_acquired (hr : Refines fold n g owner) (ht : n.threads[i]? = some t) (hjob : t'.job = t.job)
    {phase : AcquirePhase} {made : List JobSlot} (tr : ConcurrencyTracker)
    (hmade : ∀ slot ∈ made, slot.tracker = fold t.job.name)
    (hat : AtGate (g.slots ++ made) (owner ++ List.replicate made.length i) (fold t.job.name) i t' phase) :
    Refines fold
      { trackers := Function.update n.trackers (fold t.job.name) (some tr), threads := n.threads.set i t' }
      { trackers := Function.update g.trackers (fold t.job.name) (some tr)
        acquisitions := g.acquisitions.set i ⟨t.job, phase⟩
        slots := g.slots ++ made }
      (owner ++ List.replicate made.length i) where
  trackers := by rw [hr.trackers]
  length := by simp [hr.length]
  owners := by simp [hr.owners]
  threads j x hx := by
    have hlt : i < g.acquisitions.length := by
      rw [hr.length]
      exact (List.getElem?_eq_some_iff.1 ht).1
    rcases getElem?_set_cases hx with ⟨rfl, rfl⟩ | ⟨hij, hx⟩
    · refine ⟨phase, ?_, by rw [hjob]; exact hat⟩
      simp [hjob, hlt]
    · obtain ⟨phase', hphase', hat'⟩ := hr.threads j x hx
      refine ⟨phase', ?_, hat'.frame fun k hk => ?_⟩
      · dsimp only
        rw [List.getElem?_set_ne (Ne.symm hij), hphase']
      · have hlt := (List.getElem?_eq_some_iff.1 hk).1
        refine ⟨by rw [List.getElem?_append_left hlt, hk], ?_⟩
        exact List.getElem?_append_left (by rw [← hr.owners]; exact hlt)
  tracked slot hslot := by
    dsimp only at hslot ⊢
    by_cases hkey : slot.tracker = fold t.job.name
    · rw [hkey, Function.update_self]
      rfl
    · rw [Function.update_of_ne hkey]
      rcases List.mem_append.1 hslot with hslot | hslot
      · exact hr.tracked slot hslot
      · exact absurd (hmade slot hslot) hkey

theorem exec_acquisition (hr : Refines fold n g owner) (ht : n.threads[i]? = some t) {phase phase' : AcquirePhase}
    (ha : g.acquisitions[i]? = some ⟨t.job, phase⟩) (act : AcquireAct) (made : List JobSlot) {tr : ConcurrencyTracker}
    (hjob : t'.job = t.job) (hmade : ∀ slot ∈ made, slot.tracker = fold t.job.name)
    (hs : Acquisition.step (fold t.job.name) (n.getTracker fold t.job) ⟨t.job, phase⟩ act = some (tr, ⟨t.job, phase'⟩, made))
    (hat : AtGate (g.slots ++ made) (owner ++ List.replicate made.length i) (fold t.job.name) i t' phase') :
    ∃ fs g' owner', exec (Gate.step fold registry) g fs = some g' ∧ Refines fold
      { trackers := Function.update n.trackers (fold t.job.name) (some tr), threads := n.threads.set i t' } g' owner' := by
  rw [← hr.getTracker] at hs
  exact ⟨[.acquisition i act], _, _, exec_cons_some.2 ⟨_, step_acquisition ha hs, rfl⟩,
    refines_acquired hr ht hjob tr hmade hat⟩

/-- `GetTracker`, and the read of what it returned. -/
theorem exec_entered {job : JobDescriptor} {phase : AcquirePhase} (ha : g.acquisitions[i]? = some ⟨job, .entered⟩)
    (hs : Acquisition.step (fold job.name) (g.getTracker fold job) ⟨job, .reading⟩ .read =
      some (g.getTracker fold job, ⟨job, phase⟩, [])) :
    exec (Gate.step fold registry) g [.acquisition i .getTracker, .acquisition i .read] = some {
      trackers := Function.update g.trackers (fold job.name) (some (g.getTracker fold job))
      acquisitions := g.acquisitions.set i ⟨job, phase⟩
      slots := g.slots ++ [] } := by
  obtain ⟨hlt, -⟩ := List.getElem?_eq_some_iff.1 ha
  refine exec_cons_some.2 ⟨_, @step_acquisition fold registry g i _ ⟨job, .reading⟩ .getTracker _ [] ha rfl, ?_⟩
  have hsame : (Gate.mk (Function.update g.trackers (fold job.name) (some (g.getTracker fold job)))
      (g.acquisitions.set i ⟨job, .reading⟩) (g.slots ++ [])).getTracker fold job = g.getTracker fold job := by
    simp [Gate.getTracker]
  rw [← hsame] at hs
  refine exec_cons_some.2 ⟨_, @step_acquisition _ _ _ _ ⟨job, .reading⟩ _ _ _ _ (by simp [hlt]) hs, ?_⟩
  rw [hsame]
  simp

/-- The read of the tracker, after `GetTracker` where that is still to come. -/
theorem exec_read (hr : Refines fold n g owner) (ht : n.threads[i]? = some t) (hp : t.phase = .gate)
    {phase' : AcquirePhase} (hjob : t'.job = t.job)
    (hs : Acquisition.step (fold t.job.name) (n.getTracker fold t.job) ⟨t.job, .reading⟩ .read =
      some (n.getTracker fold t.job, ⟨t.job, phase'⟩, []))
    (hat : AtGate g.slots owner (fold t.job.name) i t' phase') :
    ∃ fs g' owner', exec (Gate.step fold registry) g fs = some g' ∧ Refines fold
      { trackers := Function.update n.trackers (fold t.job.name) (some (n.getTracker fold t.job))
        threads := n.threads.set i t' } g' owner' := by
  have hat' : AtGate (g.slots ++ []) (owner ++ List.replicate 0 i) (fold t.job.name) i t' phase' := by
    simpa using hat
  obtain ⟨phase, ha, hphase⟩ := hr.threads i t ht
  simp only [AtGate, hp] at hphase
  obtain ⟨rfl | rfl, -⟩ := hphase
  · rw [← hr.getTracker] at hs
    have hexec := @exec_entered fold registry g i t.job phase' ha hs
    rw [hr.getTracker] at hexec
    have hdone := @refines_acquired _ _ _ _ _ _ _ hr ht hjob _ [] (n.getTracker fold t.job) (by simp) hat'
    exact ⟨_, _, _, hexec, hdone⟩
  · exact exec_acquisition hr ht ha .read [] hjob (by simp) hs hat'

/-! ## A step of the body -/

/-- A thread that has its slot has its tracker. -/
theorem tracker_self (hr : Refines fold n g owner) {k : Nat} {slot : JobSlot} (hk : g.slots[k]? = some slot)
    {job : JobDescriptor} (hkey : slot.tracker = fold job.name) :
    n.trackers (fold job.name) = some (n.getTracker fold job) := by
  have hsome := hr.tracked slot (List.mem_of_getElem? hk)
  rw [hkey, hr.trackers] at hsome
  obtain ⟨tr, htr⟩ := Option.isSome_iff_exists.1 hsome
  unfold Node.getTracker
  rw [htr]
  rfl

/-- The body goes on while its slot is not disposed of. -/
theorem refines_body (hr : Refines fold n g owner) (ht : n.threads[i]? = some t) {a : Act} (hb : t.BodyStep a t') :
    Refines fold
      { trackers := Function.update n.trackers (fold t.job.name) (some (n.getTracker fold t.job))
        threads := n.threads.set i t' } g owner := by
  obtain ⟨hbefore, hafter⟩ := hb.holds
  obtain ⟨hjob, -, -, hremote⟩ := hb.keeps
  obtain ⟨phase, ha, hat⟩ := hr.threads i t ht
  obtain ⟨rfl, k, ho, hk⟩ := (atGate_held hbefore).1 hat
  have hself := tracker_self hr hk rfl
  refine ⟨?_, by simp [hr.length], hr.owners, fun j x hx => ?_, hr.tracked⟩
  · rw [hr.trackers, ← hself, Function.update_eq_self]
  · rcases getElem?_set_cases hx with ⟨rfl, rfl⟩ | ⟨-, hx⟩
    · refine ⟨.acquired, by rw [hjob]; exact ha, (atGate_held hafter).2 ⟨rfl, k, ho, ?_⟩⟩
      rw [hjob, hremote]
      exact hk
    · exact hr.threads j x hx

/-! ## A step of `DisposeAsync` -/

/-- The gate after a step on thread `i`'s slot. -/
theorem refines_disposal (hr : Refines fold n g owner) (ht : n.threads[i]? = some t) (hjob : t'.job = t.job) {k : Nat}
    {slot : JobSlot} (ho : owner[k]? = some i) (hkey : slot.tracker = fold t.job.name) (tr : ConcurrencyTracker)
    (ha : g.acquisitions[i]? = some ⟨t.job, .acquired⟩)
    (hat : AtGate (g.slots.set k slot) owner (fold t.job.name) i t' .acquired) :
    Refines fold { trackers := Function.update n.trackers (fold t.job.name) (some tr), threads := n.threads.set i t' }
      { g with
        trackers := Function.update g.trackers (fold t.job.name) (some tr)
        slots := g.slots.set k slot } owner where
  trackers := by rw [hr.trackers]
  length := by simp [hr.length]
  owners := by simp [hr.owners]
  threads j x hx := by
    rcases getElem?_set_cases hx with ⟨rfl, rfl⟩ | ⟨hij, hx⟩
    · exact ⟨.acquired, by rw [hjob]; exact ha, by rw [hjob]; exact hat⟩
    · obtain ⟨phase', hphase', hat'⟩ := hr.threads j x hx
      refine ⟨phase', hphase', hat'.frame fun k' hk' => ⟨hk', ?_⟩⟩
      have hne : k ≠ k' := by
        rintro rfl
        rw [ho] at hk'
        exact hij (Option.some.inj hk').symm
      exact List.getElem?_set_ne hne
  tracked x hx := by
    dsimp only at hx ⊢
    by_cases hx' : x.tracker = fold t.job.name
    · rw [hx', Function.update_self]
      rfl
    · rw [Function.update_of_ne hx']
      rcases List.mem_or_eq_of_mem_set hx with hx | rfl
      · exact hr.tracked x hx
      · exact absurd hkey hx'

/-- One undisturbed call, up to the `tracker.Release()`. -/
theorem exec_disposed {k : Nat} {key : String} {remote : Bool} {tr : ConcurrencyTracker}
    (hk : g.slots[k]? = some ⟨key, remote, false, []⟩) (htr : g.trackers key = some tr) :
    ∃ fs, exec (Gate.step fold registry) g fs = some { g with
      trackers := Function.update g.trackers key (some tr)
      slots := g.slots.set k ⟨key, remote, true, [.releasing false]⟩ } := by
  obtain ⟨hlt, hget⟩ := List.getElem?_eq_some_iff.1 hk
  cases remote with
  | false =>
    refine ⟨[.disposeAsync k, .disposal k 0 .exchange], ?_⟩
    simp [exec, Gate.step, JobSlot.step, hget, htr, hlt]
  | true =>
    refine ⟨[.disposeAsync k, .disposal k 0 .exchange, .disposal k 0 (.remote false)], ?_⟩
    simp [exec, Gate.step, JobSlot.step, hget, htr, hlt]

theorem exec_released {k : Nat} {key : String} {remote : Bool} {tr : ConcurrencyTracker}
    (hk : g.slots[k]? = some ⟨key, remote, true, [.releasing false]⟩) (htr : g.trackers key = some tr) :
    ∃ fs, exec (Gate.step fold registry) g fs = some { g with
      trackers := Function.update g.trackers key (some tr.release)
      slots := g.slots.set k ⟨key, remote, true, [.released false]⟩ } := by
  refine ⟨[.disposal k 0 .release], ?_⟩
  simp [exec, Gate.step, JobSlot.step, hk, htr]

/-! ## Every run -/

/-- The swap that succeeds: without a finite cap the slot is made at once. -/
theorem exec_won (hr : Refines fold n g owner) (ht : n.threads[i]? = some t)
    (hp : t.phase = .swap (n.getTracker fold t.job).current) :
    ∃ fs g' owner', exec (Gate.step fold registry) g fs = some g' ∧ Refines fold
      { trackers := Function.update n.trackers (fold t.job.name)
          (some { n.getTracker fold t.job with current := (n.getTracker fold t.job).current + 1 })
        threads := n.threads.set i
          { t with phase := if t.job.finite then .coordinator else .holding, holdsLocal := true } } g' owner' := by
  obtain ⟨phase, ha, hat⟩ := hr.threads i t ht
  simp only [AtGate, hp] at hat
  obtain ⟨rfl, hremote⟩ := hat
  by_cases hfin : t.job.finite = true
  · rw [if_pos hfin]
    exact exec_acquisition hr ht ha .swap [] (by rfl) (by simp) (by simp [Acquisition.step, hfin]) rfl
  · rw [if_neg hfin]
    refine exec_acquisition hr ht ha .swap [⟨fold t.job.name, false, false, []⟩] (by rfl) (by simp)
      (by simp [Acquisition.step, hfin]) ⟨rfl, g.slots.length, ?_, ?_⟩
    · simp [← hr.owners]
    · simp [hremote]

/-- A step of a thread is a run of the gate. -/
theorem refines_act (hr : Refines fold n g owner) (ht : n.threads[i]? = some t) {a : Act} {tr : ConcurrencyTracker}
    (h : t.Steps (n.getTracker fold t.job) a tr t') :
    ∃ fs g' owner', exec (Gate.step fold registry) g fs = some g' ∧ Refines fold
      { trackers := Function.update n.trackers (fold t.job.name) (some tr), threads := n.threads.set i t' } g' owner' := by
  obtain ⟨phase, ha, hat⟩ := hr.threads i t ht
  cases h with
  | full hp hfull => exact exec_read hr ht hp (by rfl) (by simp [Acquisition.step, hfull]) (.inl rfl)
  | free hp hfree =>
    simp only [AtGate, hp] at hat
    exact exec_read hr ht hp (by rfl) (by simp [Acquisition.step, hfree]) ⟨rfl, hat.2⟩
  | won hp => exact exec_won hr ht hp
  | lost hp hne =>
    simp only [AtGate, hp] at hat
    obtain ⟨rfl, hremote⟩ := hat
    exact exec_acquisition hr ht ha .swap [] (by rfl) (by simp) (by simp [Acquisition.step, hne])
      ⟨.inr rfl, hremote⟩
  | granted hp =>
    simp only [AtGate, hp] at hat
    subst hat
    refine exec_acquisition hr ht ha (.coordinator .granted) [⟨fold t.job.name, true, false, []⟩] (by rfl)
      (by simp) rfl ⟨rfl, g.slots.length, ?_, ?_⟩
    · simp [← hr.owners]
    · simp
  | @refused answer hp hne =>
    simp only [AtGate, hp] at hat
    subst hat
    cases answer with
    | granted => exact absurd rfl hne
    | refused =>
      exact exec_acquisition hr ht ha (.coordinator .refused) [] (by rfl) (by simp) rfl ⟨false, rfl⟩
    | threw => exact exec_acquisition hr ht ha (.coordinator .threw) [] (by rfl) (by simp) rfl ⟨true, rfl⟩
  | rolledBack hp =>
    simp only [AtGate, hp] at hat
    obtain ⟨threw, rfl⟩ := hat
    refine exec_acquisition hr ht ha .rollback [] (by rfl) (by simp) rfl ?_
    cases threw
    · exact .inl rfl
    · exact .inr rfl
  | body hb => exact ⟨[], g, owner, rfl, refines_body hr ht hb⟩
  | disposed hp =>
    obtain ⟨rfl, k, ho, hk⟩ := (atGate_held (by rw [hp]; rfl)).1 hat
    obtain ⟨hlt, -⟩ := List.getElem?_eq_some_iff.1 hk
    obtain ⟨fs, hexec⟩ := @exec_disposed fold registry g _ _ _ _ hk (hr.trackers ▸ tracker_self hr hk rfl)
    refine ⟨fs, _, owner, hexec, refines_disposal hr ht (by rfl) ho (by rfl) _ ha ?_⟩
    exact ⟨rfl, t.holdsRemote, k, ho, by simp [hlt]⟩
  | released hp =>
    simp only [AtGate, hp] at hat
    obtain ⟨rfl, remote, k, ho, hk⟩ := hat
    obtain ⟨hlt, -⟩ := List.getElem?_eq_some_iff.1 hk
    obtain ⟨fs, hexec⟩ := @exec_released fold registry g _ _ _ _ hk (hr.trackers ▸ tracker_self hr hk rfl)
    refine ⟨fs, _, owner, hexec, refines_disposal hr ht (by rfl) ho (by rfl) _ ha ?_⟩
    exact ⟨rfl, remote, k, ho, by simp [hlt]⟩

theorem exec_arrive (hr : Refines fold n g owner) {job : JobDescriptor} (hjob : job ∈ registry) (source : Source) :
    ∃ fs g', exec (Gate.step fold registry) g fs = some g' ∧
      ∃ owner', Refines fold { n with threads := n.threads ++ [.new job source] } g' owner' :=
  ⟨[.tryAcquireAsync job], _, exec_cons_some.2 ⟨_, if_pos hjob, rfl⟩, owner, refines_arrive hr job source⟩

theorem refines_step {n' : Node} {e : NodeEvent} (hr : ∃ owner, Refines fold n g owner)
    (h : n.step fold registry e = some n') :
    ∃ fs g', exec (Gate.step fold registry) g fs = some g' ∧ ∃ owner', Refines fold n' g' owner' := by
  obtain ⟨owner, hr⟩ := hr
  cases e with
  | fire job =>
    simp only [Node.step] at h
    split at h <;> cases h
    exact exec_arrive hr (And.left ‹_›) .cron
  | trigger jobName =>
    simp only [Node.step] at h
    split at h
    · cases h
      exact ⟨[], g, rfl, owner, hr⟩
    · rename_i job hfind
      split at h <;> cases h
      · exact exec_arrive hr (findByName_some hfind) .manual
      · exact ⟨[], g, rfl, owner, hr⟩
  | act i a =>
    obtain ⟨t, tr, t', ht, hs, rfl⟩ := Node.act_cases h
    obtain ⟨fs, g', owner', hexec, hr'⟩ := refines_act hr ht (Thread.step_cases hs)
    exact ⟨fs, g', hexec, owner', hr'⟩

end Steps

/-- Every run of a node is a run of the gate: the trackers are the same, and each
thread is where its acquisition and its slot are. -/
theorem node_refines_gate {fold : String → String} {registry : List JobDescriptor} {es : List NodeEvent} {n : Node}
    (h : exec (Node.step fold registry) .empty es = some n) :
    ∃ fs g owner, exec (Gate.step fold registry) .empty fs = some g ∧ Refines fold n g owner := by
  obtain ⟨fs, g, hexec, owner, hr⟩ := exec_refines (fun n g => ∃ owner, Refines fold n g owner)
    (fun _ _ _ _ hr hs => refines_step hr hs) ⟨[], refines_empty⟩ h
  exact ⟨fs, g, owner, hexec, hr⟩

/-- So a tracker of a node counts what the gate's callers hold. -/
theorem node_tracker_counts {fold : String → String} {registry : List JobDescriptor} {es : List NodeEvent} {n : Node}
    (h : exec (Node.step fold registry) .empty es = some n) {key : String} {tr : ConcurrencyTracker}
    (htr : n.trackers key = some tr) : 0 ≤ tr.current ∧ tr.current ≤ tr.max := by
  obtain ⟨fs, g, owner, hexec, hr⟩ := node_refines_gate h
  have hi := gateInv_exec hexec
  rw [← hr.trackers] at htr
  have hcount := hi.count key
  rw [htr] at hcount
  have hholders : tr.current = (g.holders fold key : Nat) := hcount
  refine ⟨?_, hi.bound key tr htr⟩
  rw [hholders]
  exact Int.natCast_nonneg _

end DuckRun.Runtime.JobSlotGate
