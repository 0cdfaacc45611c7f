import DuckRun.Hosting.Services
import DuckRun.Lib.Machine
/-!
# Startup order on DuckRun.Core

The scheduler is registered before the modules, so its loop may come round
while their services are still starting. A startup is in order exactly when it
does not: no leader check before the initial tick of a Redis coordinator, and
no due job before the last module's service is started. What else the order
promises (tables before runs, a replay that sees no run of its own process)
follows.
-/

namespace DuckRun.Hosting

open DuckRun.Lib DuckRun.Runtime DuckRun.Persistence

/-- What may happen, given what has happened. -/
def Permitted (modules : List Module) (earlier : List Happening) : Happening → Prop
  | .attempted _ => ∀ m ∈ modules, .started m.hostedService ∈ earlier
  | .adding _ => .efCore ∈ modules → .tablesExist ∈ earlier
  | .replayed ids => ∀ id ∈ ids, .adding id ∉ earlier
  | .checkedLeader => .redis ∈ modules → .ticked ∈ earlier
  | _ => True

def Host.InOrder (modules : List Module) (s : Host) : Prop := Each (Permitted modules) s.history

/-- A leader check finds the initial tick of a Redis coordinator behind it, and
a due job every module's service started. -/
def Timely (modules : List Module) (s : Host) : HostEvent → Prop
  | .iterate _ => .redis ∈ modules → .ticked ∈ s.history
  | .attempt => ∀ m ∈ modules, .started m.hostedService ∈ s.history
  | _ => True

/-- What an event adds to the history. -/
def HostEvent.happens (s : Host) : HostEvent → List Happening
  | .ensureTables | .otherNode _ => [.tablesExist]
  | .readStuck => [.replayed ((s.rows.filter isStuck).map JobRunRecord.id)]
  | .initialTick _ => [.ticked]
  | .startReturns => (s.starting.map fun service => .started service.1).toList
  | .iterate _ => [.checkedLeader]
  | .attempt => (s.remaining.head?.map fun attempt => .attempted attempt.1).toList
  | .addAsync _ id _ => [.adding id]
  | _ => []

theorem adding_happens {s : Host} {e : HostEvent} {id : Nat} (h : .adding id ∈ e.happens s) :
    ∃ job createdAt, e = .addAsync job id createdAt := by
  cases e <;> simp [HostEvent.happens] at h
  exact ⟨_, _, by rw [h]⟩

theorem timely_nil (s : Host) (e : HostEvent) : Timely [] s e := by
  cases e with
  | iterate t => nofun
  | attempt => nofun
  | _ => trivial

/-! ## The queue of hosted services -/

/-- The services whose `StartAsync` has not completed. -/
def Host.pending (s : Host) : List HostedService := (s.starting.map Prod.fst).toList ++ s.waiting

structure Queued (modules : List Module) (s : Host) : Prop where
  nodup : s.pending.Nodup
  fresh : ∀ service ∈ s.pending, .started service ∉ s.history
  registered : ∀ service ∈ s.pending, service ∈ (addDuckRun modules).hostedServices
  tables : .started .schemaBootstrap ∈ s.history → .tablesExist ∈ s.history
  phase : ∀ phase, s.starting = some (.schemaBootstrap, phase) → phase ≠ .called → .tablesExist ∈ s.history

/-- Runs come from attempts. -/
structure Created (s : Host) : Prop where
  bodies : s.bodies ≠ [] → ∃ job, .attempted job ∈ s.history
  added : ∀ id, .adding id ∈ s.history → ∃ job, .attempted job ∈ s.history

/-- A step that completes no `StartAsync` and calls none. -/
theorem queued_same {modules : List Module} {s s' : Host} (hi : Queued modules s) (hpending : s'.pending = s.pending)
    (hsub : s.history ⊆ s'.history) (hnew : ∀ service, .started service ∈ s'.history → .started service ∈ s.history)
    (hphase : ∀ phase, s'.starting = some (.schemaBootstrap, phase) → phase ≠ .called → .tablesExist ∈ s'.history) :
    Queued modules s' where
  nodup := hpending ▸ hi.nodup
  fresh service h hs := hi.fresh service (hpending ▸ h) (hnew service hs)
  registered service h := hi.registered service (hpending ▸ h)
  tables h := hsub (hi.tables (hnew _ h))
  phase := hphase

/-- A step that the queue has no part in. -/
theorem queued_frame {modules : List Module} {s s' : Host} (hi : Queued modules s) (hstarting : s'.starting = s.starting)
    (hwaiting : s'.waiting = s.waiting) (hsub : s.history ⊆ s'.history)
    (hnew : ∀ service, .started service ∈ s'.history → .started service ∈ s.history) : Queued modules s' := by
  apply queued_same hi _ hsub hnew
  · intro phase h hne
    rw [hstarting] at h
    exact hsub (hi.phase phase h hne)
  · unfold Host.pending
    rw [hstarting, hwaiting]

/-- The current `StartAsync` goes on. -/
theorem queued_goesOn {modules : List Module} {s s' : Host} (hi : Queued modules s) {service : HostedService}
    {phase phase' : StartPhase} (hstarting : s.starting = some (service, phase))
    (hstarting' : s'.starting = some (service, phase')) (hwaiting : s'.waiting = s.waiting)
    (hsub : s.history ⊆ s'.history) (hnew : ∀ service, .started service ∈ s'.history → .started service ∈ s.history)
    (hphase : service = .schemaBootstrap → .tablesExist ∈ s'.history) : Queued modules s' := by
  apply queued_same hi _ hsub hnew
  · intro phase h _
    rw [hstarting'] at h
    cases h
    exact hphase rfl
  · unfold Host.pending
    rw [hstarting, hstarting', hwaiting]
    rfl

theorem queued_startReturns {modules : List Module} {s : Host} (hi : Queued modules s) {service : HostedService}
    (hstarting : s.starting = some (service, .returning)) :
    Queued modules { s with starting := none, history := .started service :: s.history } := by
  have hpending : s.pending = service :: s.waiting := by
    unfold Host.pending
    rw [hstarting]
    rfl
  have hnodup := hi.nodup
  rw [hpending, List.nodup_cons] at hnodup
  refine { nodup := hnodup.2, fresh := ?_, registered := ?_, tables := ?_, phase := nofun }
  · intro other hother hs
    rcases List.mem_cons.1 hs with he | hs
    · cases he
      exact hnodup.1 hother
    · exact hi.fresh other (hpending ▸ List.mem_cons_of_mem _ hother) hs
  · intro other hother
    exact hi.registered other (hpending ▸ List.mem_cons_of_mem _ hother)
  · intro h
    apply List.mem_cons_of_mem
    rcases List.mem_cons.1 h with he | h
    · cases he
      exact hi.phase _ hstarting nofun
    · exact hi.tables h

section Steps
variable {ε : Type} {cronos : Cronos ε} {fold : String → String} {registry : JobRegistry fold} {modules : List Module}

theorem queued_step {s s' : Host} {e : HostEvent} (hi : Queued modules s)
    (h : s.step cronos fold registry (addDuckRun modules) e = some s') : Queued modules s' := by
  cases e with
  | startNext =>
    simp only [Host.step] at h
    split at h
    · rename_i service waiting hstarting hwaiting
      cases h
      refine queued_same hi ?_ (List.Subset.refl s.history) (fun _ => id) ?_
      · unfold Host.pending
        rw [hstarting, hwaiting]
        rfl
      · -- `SchemaBootstrap` starts with nothing done.
        intro phase h hne
        cases h
        exact absurd rfl hne
    · cases h
  | ensureTables =>
    simp only [Host.step] at h
    split at h
    · rename_i hstarting
      cases h
      exact queued_goesOn hi hstarting rfl rfl (List.subset_cons_self _ _) (by simp) fun _ => List.mem_cons_self
    · cases h
  | readStuck =>
    simp only [Host.step] at h
    split at h
    · rename_i hstarting
      cases h
      refine queued_goesOn hi hstarting rfl rfl (List.subset_cons_self _ _) (by simp) fun _ => ?_
      exact List.mem_cons_of_mem _ (hi.phase _ hstarting nofun)
    · cases h
  | saveReplay now =>
    simp only [Host.step] at h
    split at h
    · rename_i hstarting
      cases h
      exact queued_goesOn hi hstarting rfl rfl (List.Subset.refl _) (fun _ => id) fun _ => hi.phase _ hstarting nofun
    · cases h
  | initialTick granted =>
    simp only [Host.step] at h
    split at h
    · rename_i hstarting
      cases h
      exact queued_goesOn hi hstarting rfl rfl (List.subset_cons_self _ _) (by simp) nofun
    · cases h
  | startReturns =>
    simp only [Host.step] at h
    split at h
    · rename_i hstarting
      cases h
      exact queued_startReturns hi hstarting
    · cases h
  | startThrows =>
    simp only [Host.step] at h
    split at h
    · cases h
      exact { nodup := List.nodup_nil, fresh := nofun, registered := nofun, tables := hi.tables, phase := nofun }
    · cases h
  | maintenance granted =>
    simp only [Host.step] at h
    split at h <;> cases h
    exact queued_frame hi rfl rfl (List.Subset.refl _) fun _ => id
  | iterate t =>
    simp only [Host.step] at h
    split at h <;> cases h
    exact queued_frame hi rfl rfl (List.subset_cons_self _ _) (by simp [Host.iterate])
  | attempt =>
    simp only [Host.step] at h
    split at h <;> cases h
    exact queued_frame hi rfl rfl (List.subset_cons_self _ _) (by simp)
  | addAsync job id createdAt =>
    simp only [Host.step] at h
    split at h <;> cases h
    obtain ⟨hstarting, hwaiting, hhistory, -⟩ := addAsync_frame (addDuckRun modules) s job id createdAt
    apply queued_frame hi hstarting hwaiting
    · rw [hhistory]
      exact List.subset_cons_self _ _
    · rw [hhistory]
      simp
  | updateAsync run =>
    simp only [Host.step] at h
    split at h <;> cases h
    exact queued_frame hi rfl rfl (List.Subset.refl _) fun _ => id
  | otherNode rows =>
    cases h
    exact queued_frame hi rfl rfl (List.subset_cons_self _ _) (by simp)
  | stop =>
    cases h
    exact queued_frame hi rfl rfl (List.Subset.refl _) fun _ => id

/-! ## What a step does -/

/-- The history grows by what happens in the step, bodies come from attempts, and
only the loop changes what the loop is about to do. -/
theorem step_effects {s s' : Host} {e : HostEvent}
    (h : s.step cronos fold registry (addDuckRun modules) e = some s') :
    s'.history = e.happens s ++ s.history ∧
      (s'.bodies ⊆ s.bodies ∨ ∃ job, e.happens s = [.attempted job]) ∧
      ((∃ t, e = .iterate t) ∨ e = .attempt ∨
        s'.remaining = s.remaining ∧ s'.scheduler.nextRuns = s.scheduler.nextRuns) := by
  cases e with
  | startNext | ensureTables | readStuck | saveReplay _ | initialTick _ | startThrows | maintenance _ | updateAsync _ =>
    simp only [Host.step] at h
    split at h <;> cases h
    exact ⟨rfl, .inl (List.Subset.refl _), .inr (.inr ⟨rfl, rfl⟩)⟩
  | otherNode _ | stop =>
    cases h
    exact ⟨rfl, .inl (List.Subset.refl _), .inr (.inr ⟨rfl, rfl⟩)⟩
  | startReturns =>
    simp only [Host.step] at h
    split at h <;> cases h
    rename_i hstarting
    refine ⟨?_, .inl (List.Subset.refl _), .inr (.inr ⟨rfl, rfl⟩)⟩
    simp [HostEvent.happens, hstarting]
  | iterate t =>
    simp only [Host.step] at h
    split at h <;> cases h
    exact ⟨rfl, .inl (List.Subset.refl _), .inl ⟨t, rfl⟩⟩
  | attempt =>
    simp only [Host.step] at h
    split at h <;> cases h
    rename_i job answer remaining hremaining
    have hhappens : HostEvent.attempt.happens s = [.attempted job] := by simp [HostEvent.happens, hremaining]
    rw [hhappens]
    exact ⟨rfl, .inr ⟨job, rfl⟩, .inr (.inl rfl)⟩
  | addAsync job id createdAt =>
    simp only [Host.step] at h
    split at h <;> cases h
    obtain ⟨-, -, hhistory, hbodies, hremaining, hscheduler⟩ := addAsync_frame (addDuckRun modules) s job id createdAt
    rw [hhistory, hbodies, hremaining, hscheduler]
    exact ⟨rfl, .inl List.erase_subset, .inr (.inr ⟨rfl, rfl⟩)⟩

theorem created_step {s s' : Host} {e : HostEvent} (hi : Created s)
    (h : s.step cronos fold registry (addDuckRun modules) e = some s') : Created s' := by
  obtain ⟨hhistory, hbodies, -⟩ := step_effects h
  have hold : (∃ job, .attempted job ∈ s.history) → ∃ job, .attempted job ∈ s'.history := by
    rintro ⟨job, hjob⟩
    rw [hhistory]
    exact ⟨job, List.mem_append_right _ hjob⟩
  refine { bodies := fun hne => ?_, added := fun id hid => ?_ }
  · rcases hbodies with hsub | ⟨job, hjob⟩
    · apply hold
      apply hi.bodies
      rintro hnil
      rw [hnil, List.subset_nil] at hsub
      exact hne hsub
    · rw [hhistory, hjob]
      exact ⟨job, List.mem_cons_self⟩
  · apply hold
    rw [hhistory, List.mem_append] at hid
    rcases hid with hid | hid
    · -- A run is added by a body.
      obtain ⟨job, createdAt, rfl⟩ := adding_happens hid
      simp only [Host.step] at h
      split at h
      · rename_i hc
        exact hi.bodies (List.ne_nil_of_mem hc.1)
      · cases h
    · exact hi.added id hid

/-! ## What the order gives -/

/-- No run is added before the first attempt, which finds every module started. -/
theorem inOrder_started {s : Host} (hc : Created s) (ho : s.InOrder modules) {id : Nat} (h : .adding id ∈ s.history)
    {m : Module} (hm : m ∈ modules) : .started m.hostedService ∈ s.history := by
  obtain ⟨job, hjob⟩ := hc.added id h
  obtain ⟨earlier, hsub, hp⟩ := ho.mem hjob
  exact hsub (hp m hm)

theorem tables_of_bodies {s : Host} (hq : Queued modules s) (hc : Created s) (ho : s.InOrder modules)
    (h : s.bodies ≠ []) (hm : .efCore ∈ modules) : .tablesExist ∈ s.history := by
  obtain ⟨job, hjob⟩ := hc.bodies h
  obtain ⟨earlier, hsub, hp⟩ := ho.mem hjob
  exact hq.tables (hsub (hp .efCore hm))

/-- While `SchemaBootstrap` is starting, no run has been added. -/
theorem bootstrap_fresh {s : Host} (hq : Queued modules s) (hc : Created s) (ho : s.InOrder modules) {phase : StartPhase}
    (h : s.starting = some (.schemaBootstrap, phase)) (id : Nat) : .adding id ∉ s.history := by
  intro hid
  have hpending : .schemaBootstrap ∈ s.pending := by
    unfold Host.pending
    rw [h]
    exact List.mem_cons_self
  have hregistered := ((addDuckRun_hostedServices modules).2.2 _).1 (hq.registered _ hpending)
  obtain he | ⟨m, hm, hservice⟩ := hregistered
  · cases he
  · exact hq.fresh _ hpending (hservice ▸ inOrder_started hc ho hid hm)

theorem inOrder_step {s s' : Host} {e : HostEvent} (hq : Queued modules s) (hc : Created s)
    (h : s.step cronos fold registry (addDuckRun modules) e = some s') :
    s'.InOrder modules ↔ s.InOrder modules ∧ Timely modules s e := by
  unfold Host.InOrder
  rw [(step_effects h).1]
  cases e with
  | startNext | saveReplay _ | startThrows | maintenance _ | updateAsync _ | stop => exact (and_iff_left trivial).symm
  | ensureTables | initialTick _ | otherNode _ => exact and_comm
  | iterate t => exact and_comm
  | startReturns =>
    simp only [Host.step] at h
    split at h <;> cases h
    rename_i hstarting
    rw [HostEvent.happens, hstarting]
    exact and_comm
  | attempt =>
    simp only [Host.step] at h
    split at h <;> cases h
    rename_i hremaining
    rw [HostEvent.happens, hremaining]
    exact and_comm
  -- The loop had added no run when the replay read the table.
  | readStuck =>
    simp only [Host.step] at h
    split at h <;> cases h
    rename_i hstarting
    constructor
    · intro ho
      exact ⟨ho.2, trivial⟩
    · rintro ⟨ho, -⟩
      exact ⟨fun id _ => bootstrap_fresh hq hc ho hstarting id, ho⟩
  -- A body comes from an attempt, and an attempt in order comes after the bootstrap.
  | addAsync job id createdAt =>
    simp only [Host.step] at h
    split at h <;> cases h
    rename_i hbody
    constructor
    · intro ho
      exact ⟨ho.2, trivial⟩
    · rintro ⟨ho, -⟩
      exact ⟨tables_of_bodies hq hc ho (List.ne_nil_of_mem hbody.1), ho⟩

/-! ## Jobs that are never due -/

/-- No attempt is to come, and no entry of the table will ever be due. -/
structure Idle (registry : JobRegistry fold) (s : Host) : Prop where
  remaining : s.remaining = []
  never : ∀ job ∈ registry.all, job.enabled = true → ∀ next, s.scheduler.nextRuns (fold job.name) ≠ some (some next)

theorem idle_iterate {s : Host} (hi : Idle registry s)
    (hnone : ∀ job ∈ registry.all, job.enabled = true → ∀ after, computeNext cronos job after = none) (t : Tick) :
    Idle registry (s.iterate cronos fold registry t) := by
  have htable : ∀ job ∈ registry.all, job.enabled = true → ∀ next,
      s.scheduler.tableAt cronos fold registry t (fold job.name) ≠ some (some next) := by
    intro job hjob henabled next
    unfold Scheduler.tableAt
    split
    · rw [boot_entry registry.distinct hjob, hnone job hjob henabled]
      nofun
    · exact hi.never job hjob henabled next
  -- The table has no entry a clock could reach, so the `foreach` finds nothing due.
  have hdue : s.scheduler.dueJobs cronos fold registry t = [] := by
    apply List.eq_nil_iff_forall_not_mem.2
    intro job hjob
    obtain ⟨-, hmem, hdue⟩ := mem_dueJobs.1 hjob
    obtain ⟨henabled, next, hnext, -⟩ := isDue_iff.1 hdue
    exact htable job hmem henabled next hnext
  cases hleader : t.isLeader with
  | true =>
    have hret : ∀ job ∈ s.scheduler.dueJobs cronos fold registry t, t.tryAcquireAsync job ≠ .threw := by
      rw [hdue]
      nofun
    unfold Host.iterate
    rw [iterate_returns hleader hret, hdue]
    refine { remaining := rfl, never := fun job hjob henabled next => ?_ }
    have hfilter : ∀ job ∈ registry.all.filter (isDue fold (s.scheduler.tableAt cronos fold registry t) t.now),
        t.tryAcquireAsync job ≠ .threw := by
      intro job hjob
      rw [List.mem_filter] at hjob
      exact hret job (mem_dueJobs.2 ⟨hleader, hjob.1, hjob.2⟩)
    dsimp only
    rw [fireDue_nextRuns registry.distinct hfilter hjob]
    have hnot : ¬ isDue fold (s.scheduler.tableAt cronos fold registry t) t.now job = true := by
      intro hjobdue
      have hmem := mem_dueJobs.2 ⟨hleader, hjob, hjobdue⟩
      rw [hdue] at hmem
      cases hmem
    rw [if_neg hnot]
    exact htable job hjob henabled next
  | false =>
    unfold Host.iterate
    rw [iterate_follower hleader]
    exact { remaining := rfl, never := htable }

theorem idle_step {s s' : Host} {e : HostEvent} (hi : Idle registry s)
    (hnone : ∀ job ∈ registry.all, job.enabled = true → ∀ after, computeNext cronos job after = none)
    (h : s.step cronos fold registry (addDuckRun modules) e = some s') : Idle registry s' ∧ e ≠ .attempt := by
  have hattempt : e ≠ .attempt := by
    rintro rfl
    simp only [Host.step, hi.remaining] at h
    cases h
  refine ⟨?_, hattempt⟩
  rcases (step_effects h).2.2 with ⟨t, rfl⟩ | he | ⟨hremaining, hnextRuns⟩
  · simp only [Host.step] at h
    split at h <;> cases h
    exact idle_iterate hi hnone t
  · exact absurd he hattempt
  · exact { remaining := hremaining.trans hi.remaining, never := hnextRuns ▸ hi.never }

/-! ## Startups -/

theorem mem_initial_history {services : ServiceCollection} {tables : Bool} {rows : List JobRunRecord} {x : Happening}
    (h : x ∈ (Host.initial services tables rows).history) : x = .tablesExist := by
  unfold Host.initial at h
  dsimp only at h
  split at h
  · exact List.mem_singleton.1 h
  · cases h

theorem queued_initial (modules : List Module) (tables : Bool) (rows : List JobRunRecord) :
    Queued modules (.initial (addDuckRun modules) tables rows) where
  nodup := (addDuckRun_hostedServices modules).2.1
  fresh service _ h := by cases mem_initial_history h
  registered service h := h
  tables h := by cases mem_initial_history h
  phase := nofun

theorem created_initial (services : ServiceCollection) (tables : Bool) (rows : List JobRunRecord) :
    Created (.initial services tables rows) where
  bodies h := absurd rfl h
  added id h := by cases mem_initial_history h

theorem inOrder_initial (modules : List Module) (services : ServiceCollection) (tables : Bool) (rows : List JobRunRecord) :
    (Host.initial services tables rows).InOrder modules := by
  cases tables
  · trivial
  · exact ⟨trivial, trivial⟩

/-- A startup is in order exactly when all its steps are timely. -/
theorem inOrder_run {tables : Bool} {rows : List JobRunRecord} {es : List HostEvent} {s : Host}
    (h : exec (Host.step cronos fold registry (addDuckRun modules)) (.initial (addDuckRun modules) tables rows) es = some s) :
    s.InOrder modules ↔ Along (Host.step cronos fold registry (addDuckRun modules)) (Timely modules)
      (.initial (addDuckRun modules) tables rows) es := by
  apply exec_iff_along (fun s => Queued modules s ∧ Created s) (Host.InOrder modules) _ _ _ h
  · rintro s e s' - ⟨hq, hc⟩ hstep
    exact ⟨⟨queued_step hq hstep, created_step hc hstep⟩, inOrder_step hq hc hstep⟩
  · exact ⟨queued_initial modules tables rows, created_initial _ tables rows⟩
  · exact inOrder_initial modules _ tables rows

/-! ## A startup whose scheduler comes round at once -/

/-- The host after its first call of a `StartAsync`. -/
def Host.schedulerStarted (services : ServiceCollection) (tables : Bool) (rows : List JobRunRecord) : Host :=
  { Host.initial services tables rows with
    waiting := services.hostedServices.tail
    starting := some (.duckRunSchedulerService, .returning)
    executing := true }

theorem step_schedulerStarted (tables : Bool) (rows : List JobRunRecord) :
    (Host.initial (addDuckRun modules) tables rows).step cronos fold registry (addDuckRun modules) .startNext =
      some (.schedulerStarted (addDuckRun modules) tables rows) := by
  obtain ⟨waiting, hservices⟩ := List.head?_eq_some_iff.1 (addDuckRun_hostedServices modules).1
  simp only [Host.step, Host.initial, Host.schedulerStarted, hservices]
  rfl

/-- The first leader check, of a Redis coordinator before its initial tick. -/
theorem isLeaderAsync_schedulerStarted (tables : Bool) (rows : List JobRunRecord) :
    (Host.schedulerStarted (addDuckRun modules) tables rows).isLeaderAsync (addDuckRun modules) =
      !decide (.redis ∈ modules) := by
  unfold Host.isLeaderAsync
  rw [addDuckRun_clusterCoordinator]
  by_cases hredis : .redis ∈ modules
  · simp [hredis, Host.schedulerStarted, Host.initial]
  · simp [hredis]

theorem exec_first_check (tables : Bool) (rows : List JobRunRecord) {t : Tick}
    (ht : t.leaderCheck = some (!decide (.redis ∈ modules))) :
    exec (Host.step cronos fold registry (addDuckRun modules)) (.initial (addDuckRun modules) tables rows)
      [.startNext, .iterate t] = some ((Host.schedulerStarted (addDuckRun modules) tables rows).iterate cronos fold registry t) := by
  rw [exec_cons, step_schedulerStarted, Option.bind_some, exec_cons]
  simp only [Host.step]
  rw [if_pos ⟨rfl, rfl, rfl, rfl, by rw [isLeaderAsync_schedulerStarted, ht]⟩]
  rfl

/-- With Redis, the first leader check is too early. -/
theorem early_check (hredis : .redis ∈ modules) (tables : Bool) (rows : List JobRunRecord) :
    ∃ es s, exec (Host.step cronos fold registry (addDuckRun modules)) (.initial (addDuckRun modules) tables rows) es = some s ∧
      ¬ s.InOrder modules := by
  have ht : some false = some (!decide (.redis ∈ modules)) := by simp [hredis]
  refine ⟨_, _, exec_first_check tables rows (t := ⟨some false, 0, 0, fun _ => true, fun _ => .refused⟩) ht, ?_⟩
  intro ho
  have hticked : .ticked ∈ (Host.initial (addDuckRun modules) tables rows).history := ho.1 hredis
  cases mem_initial_history hticked

theorem step_attempt {s : Host} {job : JobDescriptor} {answer : Answer} {remaining : List (JobDescriptor × Answer)}
    (h : s.remaining = (job, answer) :: remaining) :
    ∃ s', s.step cronos fold registry (addDuckRun modules) .attempt = some s' ∧
      s'.history = .attempted job :: s.history := by
  simp only [Host.step, h]
  exact ⟨_, rfl, rfl⟩

/-- Without, the first iteration attempts a job whose first occurrence has passed. -/
theorem early_attempt (hredis : .redis ∉ modules) (hmodules : modules ≠ []) {job : JobDescriptor} (hjob : job ∈ registry.all)
    (henabled : job.enabled = true) {after next : Instant} (hnext : computeNext cronos job after = some next)
    (tables : Bool) (rows : List JobRunRecord) :
    ∃ es s, exec (Host.step cronos fold registry (addDuckRun modules)) (.initial (addDuckRun modules) tables rows) es = some s ∧
      ¬ s.InOrder modules := by
  obtain ⟨m, hm⟩ := List.exists_mem_of_ne_nil _ hmodules
  let t : Tick := ⟨some true, after, next, fun _ => true, fun _ => .refused⟩
  have hret : ∀ job ∈ Scheduler.start.dueJobs cronos fold registry t, t.tryAcquireAsync job ≠ .threw := by
    intro other _ hthrew
    obtain ⟨-, -, hanswer⟩ := tryAcquireAsync_threw.1 hthrew
    cases hanswer
  have hdue : job ∈ Scheduler.start.dueJobs cronos fold registry t := by
    apply mem_dueJobs.2
    refine ⟨rfl, hjob, isDue_iff.2 ⟨henabled, next, ?_, Int.le_refl _⟩⟩
    refine (boot_entry registry.distinct hjob).trans ?_
    rw [hnext]
  obtain ⟨first, rest, hfirst⟩ := List.exists_cons_of_ne_nil (List.ne_nil_of_mem hdue)
  have hleader : some true = some (!decide (.redis ∈ modules)) := by simp [hredis]
  have hcheck := @exec_first_check _ cronos _ registry modules tables rows t hleader
  have hremaining : ((Host.schedulerStarted (addDuckRun modules) tables rows).iterate cronos fold registry t).remaining =
      (first, t.tryAcquireAsync first) :: rest.map fun job => (job, t.tryAcquireAsync job) := by
    unfold Host.iterate
    have hscheduler : (Host.schedulerStarted (addDuckRun modules) tables rows).scheduler = .start := rfl
    rw [hscheduler, iterate_returns rfl hret, hfirst]
    rfl
  obtain ⟨s, hattempt, hhistory⟩ := @step_attempt _ cronos _ registry modules _ _ _ _ hremaining
  refine ⟨[.startNext, .iterate t] ++ [.attempt], s, ?_, ?_⟩
  · rw [exec_append, hcheck, Option.bind_some, exec_cons, hattempt]
    rfl
  · intro ho
    unfold Host.InOrder at ho
    rw [hhistory] at ho
    have hstarted : .started m.hostedService ∈
        .checkedLeader :: (Host.initial (addDuckRun modules) tables rows).history := ho.1 m hm
    rcases List.mem_cons.1 hstarted with he | hstarted
    · cases he
    · cases mem_initial_history hstarted

/-- A startup is in order exactly when no leader check precedes the initial tick
of a Redis coordinator and no due job comes up before every module's service is
started. Nothing enforces this: all startups of a configuration are in order
only if it has no module, or no Redis and no job that is ever due. -/
theorem startup_in_order_iff (cronos : Cronos ε) (fold : String → String) (registry : JobRegistry fold)
    (modules : List Module) (tables : Bool) (rows : List JobRunRecord) :
    (∀ es s, exec (Host.step cronos fold registry (addDuckRun modules)) (.initial (addDuckRun modules) tables rows) es = some s →
      (s.InOrder modules ↔ Along (Host.step cronos fold registry (addDuckRun modules)) (Timely modules)
        (.initial (addDuckRun modules) tables rows) es)) ∧
    ((∀ es s, exec (Host.step cronos fold registry (addDuckRun modules)) (.initial (addDuckRun modules) tables rows) es = some s →
      s.InOrder modules) ↔
        modules = [] ∨ .redis ∉ modules ∧ ∀ job ∈ registry.all, job.enabled = true → ∀ after, computeNext cronos job after = none) := by
  refine ⟨fun es s => inOrder_run, ?_, ?_⟩
  · intro hall
    by_cases hmodules : modules = []
    · exact .inl hmodules
    have hredis : .redis ∉ modules := by
      intro hredis
      obtain ⟨es, s, hrun, hnot⟩ := @early_check _ cronos _ registry _ hredis tables rows
      exact hnot (hall es s hrun)
    refine .inr ⟨hredis, fun job hjob henabled after => ?_⟩
    cases hnext : computeNext cronos job after with
    | none => rfl
    | some next =>
      obtain ⟨es, s, hrun, hnot⟩ := early_attempt hredis hmodules hjob henabled hnext tables rows
      exact absurd (hall es s hrun) hnot
  · rintro (rfl | ⟨hredis, hnone⟩) es s hrun
    · -- Every step is timely.
      apply (inOrder_run hrun).2
      exact along_mono (fun s e _ => timely_nil s e) (along_of_forall (G := fun _ => True) fun _ _ => trivial)
    · -- The loop has nothing to attempt.
      suffices hinv : (Queued modules s ∧ Created s) ∧ Idle registry s ∧ s.InOrder modules from hinv.2.2
      apply exec_inv (fun s => (Queued modules s ∧ Created s) ∧ Idle registry s ∧ s.InOrder modules) _ _ hrun
      · rintro s e s' ⟨⟨hq, hc⟩, hi, ho⟩ hstep
        obtain ⟨hi', hattempt⟩ := idle_step hi hnone hstep
        refine ⟨⟨queued_step hq hstep, created_step hc hstep⟩, hi', (inOrder_step hq hc hstep).2 ⟨ho, ?_⟩⟩
        cases e with
        | iterate t => exact fun h => absurd h hredis
        | attempt => exact absurd rfl hattempt
        | _ => trivial
      · refine ⟨⟨queued_initial modules tables rows, created_initial _ tables rows⟩, ?_, inOrder_initial modules _ tables rows⟩
        exact { remaining := rfl, never := nofun }

end Steps

/-! ## A job due at boot -/

/-- The scheduler comes round, a minute after the epoch, before `SchemaBootstrap` is called. -/
def slowBootstrap : List HostEvent :=
  [.startNext, .iterate (minuteTick .granted), .attempt, .addAsync everyMinute 1 600000000]

theorem run_stored_before_tables :
    ¬ ∀ (ε : Type) (cronos : Cronos ε) (fold : String → String) (registry : JobRegistry fold) (modules : List Module)
      (tables : Bool) (rows : List JobRunRecord) (es : List HostEvent) (s : Host),
      exec (Host.step cronos fold registry (addDuckRun modules)) (.initial (addDuckRun modules) tables rows) es = some s →
        s.InOrder modules := by
  intro h
  have ho := h Period cronosOfPeriods id everyMinuteRegistry [.efCore] false [] slowBootstrap _ rfl
  have htables := ho.1 List.mem_cons_self
  revert htables
  decide +kernel

/-- The host is through before the scheduler comes round. -/
def quickBootstrap : List HostEvent :=
  [.startNext, .startReturns, .startNext, .ensureTables, .readStuck, .startReturns, .iterate (minuteTick .granted), .attempt,
    .addAsync everyMinute 1 600000000]

theorem startup_in_order_quickBootstrap :
    ∃ s, exec (Host.step cronosOfPeriods id everyMinuteRegistry (addDuckRun [.efCore]))
      (.initial (addDuckRun [.efCore]) false []) quickBootstrap = some s ∧ s.InOrder [.efCore] := by
  refine ⟨_, rfl, ?_⟩
  apply ((startup_in_order_iff cronosOfPeriods id everyMinuteRegistry [.efCore] false []).1 quickBootstrap _ rfl).2
  apply along_cons trivial rfl
  apply along_cons trivial rfl
  apply along_cons trivial rfl
  apply along_cons trivial rfl
  apply along_cons trivial rfl
  apply along_cons trivial rfl
  apply along_cons (fun hredis => absurd hredis (by decide)) rfl
  refine along_cons (fun m hm => ?_) rfl (along_cons trivial rfl trivial)
  rw [List.mem_singleton.1 hm]
  decide +kernel

end DuckRun.Hosting
