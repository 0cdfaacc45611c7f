import DuckRun.Runtime.Slots
/-!
# What the trackers count

Every tracker's count is the number of threads of its job between the
successful swap and the release (`NodeInv`), whatever order the threads take
their steps in, and it never exceeds the tracker's maximum.
-/

namespace DuckRun.Runtime

open DuckRun.Lib

/-! ## The steps by their kind -/

/-- A step between the return of the `JobSlot` and its disposal: no tracker and no slot is touched. -/
inductive Thread.BodyStep (t : Thread) : Act → Thread → Prop
  | created (hp : t.phase = .holding) (hs : t.source = .manual) :
      BodyStep t (.create true) { t with phase := .queued, run := some ⟨.pending, .pending⟩ }
  | createThrew (hp : t.phase = .holding) (hs : t.source = .manual) :
      BodyStep t (.create false) { t with phase := .over .createThrew }
  | createdInBody (hp : t.phase = .creating) (hs : t.source = .cron) :
      BodyStep t (.create true) { t with phase := .ready, run := some ⟨.pending, .pending⟩ }
  | createThrewInBody (hp : t.phase = .creating) (hs : t.source = .cron) :
      BodyStep t (.create false) { t with phase := .disposing }
  | enqueued (hp : t.phase = .holding) (hs : t.source = .cron) : BodyStep t .enqueue { t with phase := .queued }
  | started (hp : t.phase = .queued) : BodyStep t .start { t with phase := t.source.bodyStart }
  | cancelled (hp : t.phase = .queued) : BodyStep t .cancel { t with phase := .over .neverStarted }
  | begun {id : Nat} {createdAt : Instant} {o : Outcomes} (hp : t.phase = .ready) :
      BodyStep t (.begin_ id createdAt o) { t with phase := .executing (t.program id createdAt o) }
  | performed {e : Effect} {rest : List Effect} (hp : t.phase = .executing (e :: rest)) :
      BodyStep t .effect { t with phase := .executing rest, run := t.run.map (·.perform e) }
  | ended (hp : t.phase = .executing []) : BodyStep t .ended { t with phase := .disposing }

/-- Every step of a thread, with what it found. -/
inductive Thread.Steps (tr : ConcurrencyTracker) (t : Thread) : Act → ConcurrencyTracker → Thread → Prop
  | full (hp : t.phase = .gate) (h : tr.max ≤ tr.current) : Steps tr t .read tr { t with phase := .over .refused }
  | free (hp : t.phase = .gate) (h : tr.current < tr.max) : Steps tr t .read tr { t with phase := .swap tr.current }
  | won (hp : t.phase = .swap tr.current) :
      Steps tr t .swap { tr with current := tr.current + 1 }
        { t with phase := if t.job.finite then .coordinator else .holding, holdsLocal := true }
  | lost {seen : Int} (hp : t.phase = .swap seen) (h : tr.current ≠ seen) : Steps tr t .swap tr { t with phase := .gate }
  | granted (hp : t.phase = .coordinator) :
      Steps tr t (.coordinator .granted) tr { t with phase := .holding, holdsRemote := true }
  | refused {answer : Answer} (hp : t.phase = .coordinator) (h : answer ≠ .granted) :
      Steps tr t (.coordinator answer) tr { t with phase := .rollback }
  | rolledBack (hp : t.phase = .rollback) :
      Steps tr t .rollback tr.release { t with phase := .over .refused, holdsLocal := false }
  | body {a : Act} {t' : Thread} (h : t.BodyStep a t') : Steps tr t a tr t'
  | disposed (hp : t.phase = .disposing) : Steps tr t .dispose tr { t with phase := .releasing, holdsRemote := false }
  | released (hp : t.phase = .releasing) :
      Steps tr t .release tr.release { t with phase := .over .released, holdsLocal := false }

theorem Thread.step_cases {tr tr' : ConcurrencyTracker} {t t' : Thread} {a : Act} (h : t.step tr a = some (tr', t')) :
    t.Steps tr a tr' t' := by
  cases a with
  | read =>
    simp only [Thread.step] at h
    split at h
    · rename_i hp
      split at h <;> cases h
      · rename_i hfull
        exact .full hp hfull
      · rename_i hfree
        exact .free hp (by omega)
    · cases h
  | swap =>
    simp only [Thread.step] at h
    split at h
    · rename_i seen hp
      split at h <;> cases h
      · rename_i hcur
        subst hcur
        exact .won hp
      · rename_i hne
        exact .lost hp hne
    · cases h
  | coordinator answer =>
    simp only [Thread.step] at h
    split at h
    · rename_i hp
      cases answer <;> cases h
      · exact .granted hp
      · exact .refused hp (by simp)
      · exact .refused hp (by simp)
    · cases h
  | create ok =>
    simp only [Thread.step] at h
    split at h
    · rename_i hp hs
      cases ok <;> cases h
      · exact .body (.createThrew hp hs)
      · exact .body (.created hp hs)
    · rename_i hp hs
      cases ok <;> cases h
      · exact .body (.createThrewInBody hp hs)
      · exact .body (.createdInBody hp hs)
    · cases h
  | enqueue =>
    simp only [Thread.step] at h
    split at h <;> cases h
    exact .body (.enqueued ‹_› ‹_›)
  | rollback =>
    simp only [Thread.step] at h
    split at h <;> cases h
    exact .rolledBack ‹_›
  | start =>
    simp only [Thread.step] at h
    split at h <;> cases h
    exact .body (.started ‹_›)
  | cancel =>
    simp only [Thread.step] at h
    split at h <;> cases h
    exact .body (.cancelled ‹_›)
  | begin_ id createdAt o =>
    simp only [Thread.step] at h
    split at h <;> cases h
    exact .body (.begun ‹_›)
  | effect =>
    simp only [Thread.step] at h
    split at h <;> cases h
    exact .body (.performed ‹_›)
  | ended =>
    simp only [Thread.step] at h
    split at h <;> cases h
    exact .body (.ended ‹_›)
  | dispose =>
    simp only [Thread.step] at h
    split at h <;> cases h
    exact .disposed ‹_›
  | release =>
    simp only [Thread.step] at h
    split at h <;> cases h
    exact .released ‹_›

/-! ## What a thread holds -/

/-- Between the successful swap and `tracker.Release()`. -/
def Phase.holdsLocal : Phase → Bool
  | .gate | .swap _ | .over .refused | .over .released => false
  | _ => true

/-- Between the coordinator's grant and the release of its slot. -/
def Phase.holdsRemote : Phase → Bool
  | .gate | .swap _ | .coordinator | .rollback | .releasing | .over .refused | .over .released => false
  | _ => true

/-- A swap follows a read below the maximum, and only jobs with a finite cap ask the coordinator. -/
def Phase.Sane (max : Int) (job : JobDescriptor) : Phase → Prop
  | .swap seen => seen < max
  | .coordinator => job.finite = true
  | _ => True

/-- A thread holds what its phase says. -/
structure Thread.Ok (max : Int) (t : Thread) : Prop where
  held : t.holdsLocal = t.phase.holdsLocal
  remote : t.holdsRemote = (t.phase.holdsRemote && t.job.finite)
  sane : t.phase.Sane max t.job

/-- What one step of a thread does to its tracker and keeps of itself. -/
structure Thread.Moves (tr : ConcurrencyTracker) (t : Thread) (tr' : ConcurrencyTracker) (t' : Thread) : Prop where
  ok : t'.Ok tr.max
  max : tr'.max = tr.max
  job : t'.job = t.job
  count : tr'.current = tr.current + (ofFlag t'.holdsLocal - ofFlag t.holdsLocal)
  bound : tr.current ≤ tr.max → tr'.current ≤ tr.max

/-- A step that leaves the tracker alone and the thread as much held as before. -/
theorem Thread.moves_phase {tr : ConcurrencyTracker} {t t' : Thread} (hok : t.Ok tr.max) (hjob : t'.job = t.job)
    (hl : t'.holdsLocal = t.holdsLocal) (hlp : t'.phase.holdsLocal = t.phase.holdsLocal)
    (hr : t'.holdsRemote = (t'.phase.holdsRemote && t.job.finite)) (hs : t'.phase.Sane tr.max t.job) :
    t.Moves tr tr t' where
  ok := ⟨hl.trans (hok.held.trans hlp.symm), hjob ▸ hr, hjob ▸ hs⟩
  max := rfl
  job := hjob
  count := by rw [hl]; omega
  bound h := h

/-- A step of the body begins and ends where the slot is held. -/
theorem Thread.BodyStep.holds {t t' : Thread} {a : Act} (h : t.BodyStep a t') :
    t.phase.holdsRemote = true ∧ t'.phase.holdsRemote = true := by
  cases h with
  | started hp =>
    refine ⟨by rw [hp]; rfl, ?_⟩
    dsimp only
    cases t.source <;> rfl
  | created hp | createThrew hp | createdInBody hp | createThrewInBody hp | enqueued hp | cancelled hp | begun hp
  | performed hp | ended hp => exact ⟨by rw [hp]; rfl, rfl⟩

/-- A step of the body leaves the slot as it is. -/
theorem Thread.BodyStep.keeps {t t' : Thread} {a : Act} (h : t.BodyStep a t') :
    t'.job = t.job ∧ t'.source = t.source ∧ t'.holdsLocal = t.holdsLocal ∧ t'.holdsRemote = t.holdsRemote := by
  cases h <;> exact ⟨rfl, rfl, rfl, rfl⟩

/-- Who holds the distributed half holds the local one, and has nothing left to ask. -/
theorem Phase.held_of_remote {phase : Phase} (h : phase.holdsRemote = true) (max : Int) (job : JobDescriptor) :
    phase.holdsLocal = true ∧ phase.Sane max job := by
  cases phase with
  | gate | swap | coordinator | rollback | releasing => cases h
  | «over» ending =>
    cases ending with
    | refused | released => cases h
    | createThrew | neverStarted => exact ⟨rfl, trivial⟩
  | holding | queued | creating | ready | executing | disposing => exact ⟨rfl, trivial⟩

/-- The thread gives its part of the tracker back. -/
theorem Thread.moves_release {tr : ConcurrencyTracker} {t : Thread} {ending : Ending} (hlocal : t.holdsLocal = true)
    (hremote : t.holdsRemote = false) (hl : (Phase.over ending).holdsLocal = false) (hr : (Phase.over ending).holdsRemote = false) :
    t.Moves tr tr.release { t with phase := .over ending, holdsLocal := false } where
  ok := ⟨hl.symm, by dsimp only; rw [hremote, hr]; rfl, trivial⟩
  max := rfl
  job := rfl
  count := by
    simp only [ConcurrencyTracker.release, hlocal, ofFlag_true, ofFlag_false]
    omega
  bound hb := by
    dsimp only [ConcurrencyTracker.release]
    omega

/-- The swap that succeeds: the thread is counted, and asks the coordinator only for a finite cap. -/
theorem Thread.moves_won {tr : ConcurrencyTracker} {t : Thread} (hok : t.Ok tr.max) (hp : t.phase = .swap tr.current) :
    t.Moves tr { tr with current := tr.current + 1 }
      { t with phase := if t.job.finite then .coordinator else .holding, holdsLocal := true } := by
  have hfree := hok.held
  have hnone := hok.remote
  have hseen := hok.sane
  rw [hp] at hfree hnone hseen
  have hfree : t.holdsLocal = false := hfree
  have hnone : t.holdsRemote = false := hnone
  have hseen : tr.current < tr.max := hseen
  refine ⟨?_, rfl, rfl, ?_, fun _ => by dsimp only; omega⟩
  · by_cases hfin : t.job.finite = true
    · rw [if_pos hfin]
      exact ⟨rfl, hnone, hfin⟩
    · rw [if_neg hfin]
      rw [Bool.not_eq_true] at hfin
      exact ⟨rfl, by dsimp only; rw [hnone, hfin]; rfl, trivial⟩
  · simp only [hfree, ofFlag_true, ofFlag_false]
    omega

theorem Thread.step_moves {tr tr' : ConcurrencyTracker} {t t' : Thread} {a : Act} (hok : t.Ok tr.max)
    (h : t.step tr a = some (tr', t')) : t.Moves tr tr' t' := by
  have hheld := hok.held
  have hremote := hok.remote
  cases step_cases h with
  | full hp | lost hp =>
    rw [hp] at hremote
    exact moves_phase hok rfl rfl (by rw [hp]; rfl) (by rw [hremote]; rfl) trivial
  | free hp hlt =>
    rw [hp] at hremote
    exact moves_phase hok rfl rfl (by rw [hp]; rfl) (by rw [hremote]; rfl) hlt
  | won hp => exact moves_won hok hp
  | granted hp =>
    have hfin := hok.sane
    rw [hp] at hfin
    exact moves_phase hok rfl rfl (by rw [hp]; rfl) (by rw [show t.job.finite = true from hfin]; rfl) trivial
  | refused hp =>
    rw [hp] at hremote
    exact moves_phase hok rfl rfl (by rw [hp]; rfl) (by rw [hremote]; rfl) trivial
  | rolledBack hp | released hp =>
    rw [hp] at hheld hremote
    exact moves_release hheld hremote rfl rfl
  | body hb =>
    obtain ⟨hjob, -, hl, hr⟩ := hb.keeps
    obtain ⟨hbefore, hafter⟩ := hb.holds
    obtain ⟨hlp, -⟩ := Phase.held_of_remote hbefore tr.max t.job
    obtain ⟨hlp', hsane⟩ := Phase.held_of_remote hafter tr.max t.job
    refine moves_phase hok hjob hl (hlp'.trans hlp.symm) ?_ hsane
    rw [hr, hremote, hbefore, hafter]
  | disposed hp => exact moves_phase hok rfl rfl (by rw [hp]; rfl) rfl trivial

/-! ## The node -/

/-- The maximum of a job's tracker. -/
def JobDescriptor.cap (job : JobDescriptor) : Int := (ConcurrencyTracker.new job.maxConcurrency).max

/-- Thread `t` is counted by the tracker of `job`. -/
def Thread.counts (job : JobDescriptor) (t : Thread) : Bool := t.job = job && t.holdsLocal

section Node
variable (fold : String → String) (registry : List JobDescriptor)

structure NodeInv (n : Node) : Prop where
  jobs : ∀ t ∈ n.threads, t.job ∈ registry
  max : ∀ job ∈ registry, (n.getTracker fold job).max = job.cap
  count : ∀ job ∈ registry, (n.getTracker fold job).current = n.threads.countP (Thread.counts job)
  bound : ∀ job ∈ registry, (n.getTracker fold job).current ≤ job.cap
  ok : ∀ t ∈ n.threads, t.Ok t.job.cap

variable {fold registry}

theorem cap_pos (job : JobDescriptor) : 0 < job.cap := by
  unfold JobDescriptor.cap ConcurrencyTracker.new intMaxValue
  dsimp only
  split <;> omega

theorem nodeInv_empty : NodeInv fold registry Node.empty where
  jobs := by simp [Node.empty]
  max _ _ := rfl
  count _ _ := rfl
  bound job _ := Int.le_of_lt (cap_pos job)
  ok := by simp [Node.empty]

/-- A new thread holds nothing yet. -/
theorem nodeInv_arrive {n : Node} (hi : NodeInv fold registry n) {job : JobDescriptor} (hjob : job ∈ registry)
    (source : Source) : NodeInv fold registry { n with threads := n.threads ++ [.new job source] } := by
  refine { hi with jobs := ?_, count := ?_, ok := ?_ }
  · intro t ht
    rcases List.mem_append.1 ht with ht | ht
    · exact hi.jobs t ht
    · rw [List.mem_singleton.1 ht]
      exact hjob
  · intro job' hjob'
    have hnew : Thread.counts job' (.new job source) = false := by simp [Thread.counts, Thread.new]
    rw [countP_snoc, hnew, ofFlag_false, ← hi.count job' hjob']
    exact (Int.add_zero _).symm
  · intro t ht
    rcases List.mem_append.1 ht with ht | ht
    · exact hi.ok t ht
    · rw [List.mem_singleton.1 ht]
      exact ⟨rfl, rfl, trivial⟩

theorem findByName_some {jobName : String} {job : JobDescriptor} (h : findByName fold registry jobName = some job) :
    job ∈ registry := List.mem_of_find?_eq_some h

/-- One step of one thread, seen from the node. -/
theorem Node.act_cases {n n' : Node} {i : Nat} {a : Act} (h : n.step fold registry (.act i a) = some n') :
    ∃ t tr t', n.threads[i]? = some t ∧ t.step (n.getTracker fold t.job) a = some (tr, t') ∧
      n' = { trackers := Function.update n.trackers (fold t.job.name) (some tr), threads := n.threads.set i t' } := by
  obtain ⟨t, ht, h⟩ := Option.bind_eq_some_iff.1 h
  obtain ⟨⟨tr, t'⟩, hs, h⟩ := Option.bind_eq_some_iff.1 h
  cases h
  exact ⟨t, tr, t', ht, hs, rfl⟩

theorem nodeInv_step (hnames : ∀ a ∈ registry, ∀ b ∈ registry, fold a.name = fold b.name → a = b) {n n' : Node}
    {e : NodeEvent} (hi : NodeInv fold registry n) (h : n.step fold registry e = some n') :
    NodeInv fold registry n' := by
  cases e with
  | fire job =>
    simp only [Node.step] at h
    split at h
    · rename_i hjob
      cases h
      exact nodeInv_arrive hi hjob.1 .cron
    · cases h
  | trigger jobName =>
    simp only [Node.step] at h
    split at h
    · cases h
      exact hi
    · rename_i job hfind
      split at h <;> cases h
      · exact nodeInv_arrive hi (findByName_some hfind) .manual
      · exact hi
  | act i a =>
    obtain ⟨t, tr, t', ht, hs, rfl⟩ := Node.act_cases h
    have htm := List.mem_of_getElem? ht
    have hjob := hi.jobs t htm
    have hmax := hi.max t.job hjob
    have hm := Thread.step_moves (hmax.symm ▸ hi.ok t htm) hs
    have htracker : ∀ job ∈ registry, Node.getTracker fold
        { trackers := Function.update n.trackers (fold t.job.name) (some tr), threads := n.threads.set i t' } job =
          if job = t.job then tr else n.getTracker fold job := by
      intro job hj
      unfold Node.getTracker
      split
      · rename_i he
        subst he
        dsimp only
        rw [Function.update_self]
        rfl
      · rename_i hne
        dsimp only
        rw [Function.update_of_ne fun he => hne (hnames job hj t.job hjob he)]
    have hcounts : ∀ job, ofFlag (t'.counts job) - ofFlag (t.counts job) =
        if job = t.job then ofFlag t'.holdsLocal - ofFlag t.holdsLocal else 0 := by
      intro job
      unfold Thread.counts
      rw [hm.job]
      by_cases he : t.job = job
      · simp [he]
      · simp [he, Ne.symm he]
    refine ⟨?_, ?_, ?_, ?_, ?_⟩
    · intro x hx
      rcases List.mem_or_eq_of_mem_set hx with hx | rfl
      · exact hi.jobs x hx
      · exact hm.job ▸ hjob
    · intro job hj
      rw [htracker job hj]
      split
      · rename_i he
        rw [he, hm.max, hmax]
      · exact hi.max job hj
    · intro job hj
      have hset := countP_set (p := Thread.counts job) t' ht
      rw [htracker job hj, hset, hcounts, ← hi.count job hj]
      split
      · rename_i he
        rw [he]
        exact hm.count
      · omega
    · intro job hj
      rw [htracker job hj]
      split
      · rename_i he
        rw [he, ← hmax]
        exact hm.bound (hmax ▸ hi.bound t.job hjob)
      · exact hi.bound job hj
    · intro x hx
      rcases List.mem_or_eq_of_mem_set hx with hx | rfl
      · exact hi.ok x hx
      · rw [hm.job, ← hmax]
        exact hm.ok

theorem nodeInv_exec (hnames : ∀ a ∈ registry, ∀ b ∈ registry, fold a.name = fold b.name → a = b)
    {es : List NodeEvent} {n : Node} (h : exec (Node.step fold registry) Node.empty es = some n) :
    NodeInv fold registry n :=
  exec_inv (NodeInv fold registry) (fun _ _ _ hi hs => nodeInv_step hnames hi hs) nodeInv_empty h

end Node

end DuckRun.Runtime
