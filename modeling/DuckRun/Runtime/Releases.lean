import DuckRun.Runtime.Operations
/-!
# Slots that are released

A slot goes to the body given to `Task.Run`, whose `finally` disposes of it.
Between the gate and that body nothing else does: when `TriggerAsync` leaves by
the exception of `CreateAndStoreRunAsync`, or the token is cancelled before the
body starts, the slot stays. `slot_released_iff` says that these are the only
two ways to keep it.
-/

namespace DuckRun.Runtime

open DuckRun.Lib JobExecutor

/-- Of the steps so far, none of thread `i` took its slot away from the body:
a manual trigger stored its run, and the body was not cancelled in the queue. -/
def HandedOver (es : List NodeEvent) (i : Nat) (source : Source) : Prop :=
  (source = .manual → NodeEvent.act i (.create false) ∉ es) ∧ NodeEvent.act i .cancel ∉ es

/-- The tracker counts the other threads only, and the coordinator has no slot of thread `i`. -/
def Node.Released (fold : String → String) (n : Node) (i : Nat) (t : Thread) : Prop :=
  (n.getTracker fold t.job).current = (n.threads.eraseIdx i).countP (Thread.counts t.job) ∧ t.holdsRemote = false

/-- The coordinator's slots of a job that are not released. -/
def Node.taken (n : Node) (job : JobDescriptor) : Nat := n.threads.countP fun t => t.job = job && t.holdsRemote

/-- `TryAcquireAsync` of one thread, undisturbed, where the coordinator has given out `taken` slots of the job. -/
def Thread.tryAcquireAsync (tr : ConcurrencyTracker) (taken : Nat) (t : Thread) :
    Option (ConcurrencyTracker × Thread) := do
  let (tr, t) ← t.step tr .read
  let (tr, t) ← t.step tr .swap
  if t.job.finite then t.step tr (.coordinator (if taken < t.job.maxConcurrency then .granted else .refused))
  else return (tr, t)

/-! ## How a thread came to its end -/

/-- One step of a thread: it was not over, its source stays, and the two
endings without a release come from the two steps that make them. -/
structure Thread.Ends (i : Nat) (t : Thread) (a : Act) (t' : Thread) : Prop where
  going : ∀ ending, t.phase ≠ .over ending
  source : t'.source = t.source
  createThrew : t'.phase = .over .createThrew ↔
    t.source = .manual ∧ NodeEvent.act i a = NodeEvent.act i (.create false)
  neverStarted : t'.phase = .over .neverStarted ↔ NodeEvent.act i a = NodeEvent.act i .cancel

theorem Thread.step_ends {tr tr' : ConcurrencyTracker} {t t' : Thread} {a : Act} (i : Nat)
    (h : t.step tr a = some (tr', t')) : t.Ends i a t' := by
  cases step_cases h with
  | won hp => exact ⟨by simp [hp], rfl, by dsimp only; split <;> simp, by dsimp only; split <;> simp⟩
  | full hp | free hp | lost hp | granted hp | refused hp | rolledBack hp | disposed hp | released hp =>
    exact ⟨by simp [hp], rfl, by simp, by simp⟩
  | body hb =>
    cases hb with
    | started hp =>
      refine ⟨by simp [hp], rfl, ?_, ?_⟩ <;> dsimp only <;> cases t.source <;> simp [Source.bodyStart]
    | createThrew hp hs | createThrewInBody hp hs => exact ⟨by simp [hp], rfl, by simp [hs], by simp⟩
    | created hp | createdInBody hp | enqueued hp | cancelled hp | begun hp | performed hp | ended hp =>
      exact ⟨by simp [hp], rfl, by simp, by simp⟩

/-- What the steps so far say about how the threads ended. -/
structure EndsBy (es : List NodeEvent) (n : Node) : Prop where
  fresh : ∀ i a, NodeEvent.act i a ∈ es → i < n.threads.length
  createThrew : ∀ i t, n.threads[i]? = some t →
    (t.phase = .over .createThrew ↔ t.source = .manual ∧ NodeEvent.act i (.create false) ∈ es)
  neverStarted : ∀ i t, n.threads[i]? = some t →
    (t.phase = .over .neverStarted ↔ NodeEvent.act i .cancel ∈ es)

variable {fold : String → String} {registry : List JobDescriptor}

/-- A step that is not a thread's own tells nothing about how it ended. -/
theorem mem_snoc_of_ne {es : List NodeEvent} {e x : NodeEvent} (h : x ≠ e) : x ∈ es ++ [e] ↔ x ∈ es := by
  simp [h]

theorem endsBy_arrive {es : List NodeEvent} {n : Node} {e : NodeEvent} (hi : EndsBy es n)
    (he : ∀ i a, e ≠ .act i a) (job : JobDescriptor) (source : Source) :
    EndsBy (es ++ [e]) { n with threads := n.threads ++ [.new job source] } := by
  have hmem : ∀ i a, NodeEvent.act i a ∈ es ++ [e] ↔ NodeEvent.act i a ∈ es :=
    fun i a => mem_snoc_of_ne (he i a).symm
  -- The new thread is the last one, and no step so far was one of its own.
  have hnew : ∀ a, NodeEvent.act n.threads.length a ∉ es :=
    fun a ha => Nat.lt_irrefl _ (hi.fresh _ a ha)
  have hcase : ∀ i t, (n.threads ++ [Thread.new job source])[i]? = some t →
      (i = n.threads.length ∧ t = .new job source) ∨ n.threads[i]? = some t := fun i t ht => getElem?_snoc_cases ht
  refine ⟨?_, ?_, ?_⟩
  · intro i a ha
    have hlt := hi.fresh i a ((hmem i a).1 ha)
    simp only [List.length_append, List.length_singleton]
    omega
  · intro i t ht
    rw [hmem]
    rcases hcase i t ht with ⟨rfl, rfl⟩ | ht
    · exact iff_of_false (by simp [Thread.new]) fun h => hnew _ h.2
    · exact hi.createThrew i t ht
  · intro i t ht
    rw [hmem]
    rcases hcase i t ht with ⟨rfl, rfl⟩ | ht
    · exact iff_of_false (by simp [Thread.new]) (hnew _)
    · exact hi.neverStarted i t ht

theorem endsBy_step {es : List NodeEvent} {n n' : Node} {e : NodeEvent} (hi : EndsBy es n)
    (h : n.step fold registry e = some n') : EndsBy (es ++ [e]) n' := by
  have hkeep : (∀ i a, e ≠ .act i a) → EndsBy (es ++ [e]) n := by
    intro he
    have hmem : ∀ i a, NodeEvent.act i a ∈ es ++ [e] ↔ NodeEvent.act i a ∈ es :=
      fun i a => mem_snoc_of_ne (he i a).symm
    exact ⟨fun i a ha => hi.fresh i a ((hmem i a).1 ha), fun i t ht => by rw [hmem]; exact hi.createThrew i t ht,
      fun i t ht => by rw [hmem]; exact hi.neverStarted i t ht⟩
  cases e with
  | fire job =>
    simp only [Node.step] at h
    split at h <;> cases h
    exact endsBy_arrive hi (by simp) job .cron
  | trigger jobName =>
    simp only [Node.step] at h
    split at h
    · cases h
      exact hkeep (by simp)
    · split at h <;> cases h
      · exact endsBy_arrive hi (by simp) _ .manual
      · exact hkeep (by simp)
  | act i a =>
    obtain ⟨t, tr, t', ht, hs, rfl⟩ := Node.act_cases h
    have he := Thread.step_ends i hs
    obtain ⟨hlt, -⟩ := List.getElem?_eq_some_iff.1 ht
    refine ⟨?_, ?_, ?_⟩
    · intro j b hb
      rw [List.length_set]
      rcases List.mem_append.1 hb with hb | hb
      · exact hi.fresh j b hb
      · cases List.mem_singleton.1 hb
        exact hlt
    · intro j x hx
      rcases getElem?_set_cases hx with ⟨rfl, rfl⟩ | ⟨hij, hx⟩
      · -- The thread was not over before this step, so none of its steps was a failed create.
        have hnot : ¬ (t.source = .manual ∧ NodeEvent.act j (.create false) ∈ es) :=
          fun hc => he.going _ ((hi.createThrew j t ht).2 hc)
        rw [he.createThrew, he.source, List.mem_append, List.mem_singleton]
        constructor
        · exact fun hc => ⟨hc.1, .inr hc.2.symm⟩
        · exact fun hc => ⟨hc.1, (hc.2.resolve_left fun hm => hnot ⟨hc.1, hm⟩).symm⟩
      · rw [mem_snoc_of_ne (by simp [hij])]
        exact hi.createThrew j x hx
    · intro j x hx
      rcases getElem?_set_cases hx with ⟨rfl, rfl⟩ | ⟨hij, hx⟩
      · have hnot : NodeEvent.act j .cancel ∉ es := fun hc => he.going _ ((hi.neverStarted j t ht).2 hc)
        rw [he.neverStarted, List.mem_append, List.mem_singleton]
        constructor
        · exact fun hc => .inr hc.symm
        · exact fun hc => (hc.resolve_left hnot).symm
      · rw [mem_snoc_of_ne (by simp [hij])]
        exact hi.neverStarted j x hx

theorem endsBy_exec {es : List NodeEvent} {n : Node} (h : exec (Node.step fold registry) Node.empty es = some n) :
    EndsBy es n :=
  exec_history EndsBy (fun _ _ _ _ hi hs => endsBy_step hi hs)
    ⟨by simp, by simp [Node.empty], by simp [Node.empty]⟩ h

/-! ## Released slots -/

/-- A thread that is over holds its slot only after one of the two endings without a release. -/
theorem over_holds_iff {es : List NodeEvent} {n : Node} (hi : NodeInv fold registry n) (he : EndsBy es n) {i : Nat}
    {t : Thread} {ending : Ending} (ht : n.threads[i]? = some t) (hover : t.phase = .over ending) :
    t.holdsLocal = false ↔ HandedOver es i t.source := by
  have hheld := (hi.ok t (List.mem_of_getElem? ht)).held
  have hc := he.createThrew i t ht
  have hn := he.neverStarted i t ht
  unfold HandedOver
  rw [hheld, ← hn, hover]
  rw [hover] at hc
  cases ending with
  | refused | released =>
    refine iff_of_true rfl ⟨fun hm hmem => ?_, by simp⟩
    have hbad := hc.2 ⟨hm, hmem⟩
    simp at hbad
  | createThrew =>
    obtain ⟨hm, hmem⟩ := hc.1 rfl
    exact iff_of_false (by simp [Phase.holdsLocal]) fun h => h.1 hm hmem
  | neverStarted => exact iff_of_false (by simp [Phase.holdsLocal]) fun h => h.2 rfl

theorem released_iff_holds {n : Node} (hi : NodeInv fold registry n) {i : Nat} {t : Thread} {ending : Ending}
    (ht : n.threads[i]? = some t) (hover : t.phase = .over ending) :
    n.Released fold i t ↔ t.holdsLocal = false := by
  have htm := List.mem_of_getElem? ht
  have hok := hi.ok t htm
  have hcount := hi.count t.job (hi.jobs t htm)
  have hrest := countP_eraseIdx (p := Thread.counts t.job) ht
  have hflag : t.counts t.job = t.holdsLocal := by simp [Thread.counts]
  rw [hflag] at hrest
  unfold Node.Released
  constructor
  · intro h
    cases hl : t.holdsLocal with
    | false => rfl
    | true =>
      rw [hl, ofFlag_true] at hrest
      have := h.1
      omega
  · intro hl
    rw [hl, ofFlag_false] at hrest
    refine ⟨by omega, ?_⟩
    -- Over and without the local half, the thread is past the release of the other half too.
    have hphase := hok.held
    rw [hl, hover] at hphase
    rw [hok.remote, hover]
    cases ending with
    | refused | released => rfl
    | createThrew | neverStarted => cases hphase

theorem tryAcquireAsync_new {tr : ConcurrencyTracker} {taken : Nat} {job : JobDescriptor} (source : Source)
    (h : tr.current < tr.max) (ht : taken < job.maxConcurrency) :
    ∃ tr' t', (Thread.new job source).tryAcquireAsync tr taken = some (tr', t') ∧ t'.phase = .holding := by
  have hread : (Thread.new job source).step tr .read =
      some (tr, ⟨job, source, .swap tr.current, false, false, none⟩) := by
    unfold Thread.step Thread.new
    exact if_neg (by omega)
  have hswap : (⟨job, source, .swap tr.current, false, false, none⟩ : Thread).step tr .swap =
      some (⟨tr.max, tr.current + 1⟩,
        ⟨job, source, if job.finite then .coordinator else .holding, true, false, none⟩) := by
    unfold Thread.step
    exact if_pos rfl
  unfold Thread.tryAcquireAsync
  simp only [hread, hswap, Option.bind_eq_bind, Option.bind_some]
  by_cases hfin : job.finite = true
  · rw [if_pos hfin, if_pos hfin, if_pos ht]
    exact ⟨_, _, rfl, rfl⟩
  · rw [if_neg hfin, if_neg hfin]
    exact ⟨_, _, rfl, rfl⟩

/-- In every run, the slot of an operation that is over is released exactly
when the operation handed it over; and where every operation of a job is over
and handed its slot over, the next `TryAcquireAsync` for the job gets one. -/
theorem slot_released_iff (fold : String → String) (registry : List JobDescriptor)
    (hnames : (registry.map fun job => fold job.name).Nodup) (hmax : ∀ job ∈ registry, 1 ≤ job.maxConcurrency)
    (es : List NodeEvent) (n : Node) (hrun : exec (Node.step fold registry) Node.empty es = some n) :
    (∀ i t ending, n.threads[i]? = some t → t.phase = .over ending →
      (n.Released fold i t ↔ HandedOver es i t.source)) ∧
    ∀ job ∈ registry, (∀ i t, n.threads[i]? = some t → t.job = job →
        (∃ ending, t.phase = .over ending) ∧ HandedOver es i t.source) →
      ∀ source, ∃ tr t, (Thread.new job source).tryAcquireAsync (n.getTracker fold job) (n.taken job) = some (tr, t) ∧
        t.phase = .holding := by
  have hi := nodeInv_exec (names_inj hnames) hrun
  have he := endsBy_exec hrun
  refine ⟨?_, ?_⟩
  · intro i t ending ht hover
    rw [released_iff_holds hi ht hover, over_holds_iff hi he ht hover]
  · intro job hjob hall source
    have hfree : ∀ t ∈ n.threads, t.job = job → t.holdsLocal = false ∧ t.holdsRemote = false := by
      intro t htm hj
      obtain ⟨i, ht⟩ := List.mem_iff_getElem?.1 htm
      obtain ⟨⟨ending, hover⟩, hh⟩ := hall i t ht hj
      have hl := (over_holds_iff hi he ht hover).2 hh
      exact ⟨hl, ((released_iff_holds hi ht hover).2 hl).2⟩
    have hlocal : n.threads.countP (Thread.counts job) = 0 := by
      refine List.countP_eq_zero.2 fun t htm hc => ?_
      simp only [Thread.counts, Bool.and_eq_true, decide_eq_true_eq] at hc
      rw [(hfree t htm hc.1).1] at hc
      exact absurd hc.2 (by decide)
    have hremote : n.taken job = 0 := by
      refine List.countP_eq_zero.2 fun t htm hc => ?_
      simp only [Bool.and_eq_true, decide_eq_true_eq] at hc
      rw [(hfree t htm hc.1).2] at hc
      exact absurd hc.2 (by decide)
    have hcount := hi.count job hjob
    have hcap := cap_pos job
    have hone := hmax job hjob
    refine tryAcquireAsync_new source ?_ ?_
    · rw [hi.max job hjob]
      omega
    · omega

/-! ## A slot that stays -/

/-- A trigger whose `CreateAndStoreRunAsync` throws. -/
def failedTrigger : List NodeEvent :=
  [.trigger "nightly", .act 0 .read, .act 0 .swap, .act 0 (.coordinator .granted), .act 0 (.create false)]

/-- A trigger whose body runs to its end. -/
def wholeTrigger : List NodeEvent :=
  [.trigger "nightly", .act 0 .read, .act 0 .swap, .act 0 (.coordinator .granted), .act 0 (.create true),
    .act 0 .start, .act 0 (.begin_ 7 0 quietOutcomes)] ++ List.replicate 12 (.act 0 .effect) ++
    [.act 0 .ended, .act 0 .dispose, .act 0 .release]

/-- After one failed trigger the job has no slot left. -/
theorem failed_trigger_keeps_slot :
    ¬ ∀ (fold : String → String) (registry : List JobDescriptor), (registry.map fun job => fold job.name).Nodup →
      (∀ job ∈ registry, 1 ≤ job.maxConcurrency) →
      ∀ es n, exec (Node.step fold registry) Node.empty es = some n →
        (∀ i t ending, n.threads[i]? = some t → t.phase = .over ending → n.Released fold i t) ∧
        ∀ job ∈ registry, (∀ t ∈ n.threads, t.job = job → ∃ ending, t.phase = .over ending) →
          ∀ source, ∃ tr t,
            (Thread.new job source).tryAcquireAsync (n.getTracker fold job) (n.taken job) = some (tr, t) ∧
              t.phase = .holding := by
  intro h
  obtain ⟨-, hnext⟩ := h id [nightly] (by decide) (by decide) failedTrigger _ rfl
  obtain ⟨tr, t, hget, -⟩ := hnext nightly (by decide) (by
    intro t ht hj
    rw [List.mem_singleton.1 ht]
    exact ⟨.createThrew, rfl⟩) .manual
  cases hget

theorem wholeTrigger_threads :
    (exec (Node.step id [nightly]) Node.empty wholeTrigger).map Node.threads =
      some [⟨nightly, .manual, .over .released, false, false, some ⟨.succeeded, .succeeded⟩⟩] := by
  decide +kernel

theorem slot_released_nightly :
    ∃ n, exec (Node.step id [nightly]) Node.empty wholeTrigger = some n ∧
      (∃ t, n.threads[0]? = some t ∧ t.phase = .over .released ∧
        (n.Released id 0 t ↔ HandedOver wholeTrigger 0 .manual)) ∧
      ∃ tr t, (Thread.new nightly .cron).tryAcquireAsync (n.getTracker id nightly) (n.taken nightly) = some (tr, t) ∧
        t.phase = .holding := by
  obtain ⟨n, hn, hthreads⟩ := Option.map_eq_some_iff.1 wholeTrigger_threads
  obtain ⟨hslots, hnext⟩ := slot_released_iff id [nightly] (by decide) (by decide) wholeTrigger n hn
  have hover : HandedOver wholeTrigger 0 .manual := by
    simp [HandedOver, wholeTrigger]
  have hget : n.threads[0]? = some ⟨nightly, .manual, .over .released, false, false, some ⟨.succeeded, .succeeded⟩⟩ := by
    rw [hthreads]
    rfl
  refine ⟨n, hn, ⟨_, hget, rfl, hslots 0 _ .released hget rfl⟩, hnext nightly (by decide) ?_ .cron⟩
  intro i t ht hjob
  rw [hthreads, List.getElem?_singleton] at ht
  clear hjob
  split at ht <;> cases ht
  rename_i hi
  subst hi
  exact ⟨⟨.released, rfl⟩, hover⟩

end DuckRun.Runtime
