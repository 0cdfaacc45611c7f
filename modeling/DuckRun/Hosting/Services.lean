import DuckRun.Persistence.JobRunStore
import DuckRun.Runtime.Scheduler
import Mathlib.Data.List.Induction
/-!
# AddDuckRun and the generic host

`AddDuckRun` registers the scheduler, and then lets every module register its
own services. The host calls `StartAsync` of the hosted services one after the
other, in the order of their registration; from its own `StartAsync` on, the
scheduler's loop runs beside the rest of the startup. What a process does is
kept in a history.

The application's own hosted services are left out: between two of the steps
here any time may pass.
-/

namespace DuckRun.Hosting

open DuckRun.Lib DuckRun.Runtime DuckRun.Persistence

/-! ## Registration -/

inductive HostedService where
  | duckRunSchedulerService
  | schemaBootstrap
  | redisClusterCoordinator
  | grpcDashboardReporter
  deriving DecidableEq, Repr

/-- The implementation behind `IJobRunStore`. -/
inductive JobRunStore where
  | inMemoryJobRunStore
  | efCoreJobRunStore
  deriving DecidableEq, Repr

/-- The implementation behind `IClusterCoordinator`. -/
inductive ClusterCoordinator where
  | localClusterCoordinator
  | redisClusterCoordinator
  deriving DecidableEq, Repr

structure ServiceCollection where
  jobRunStore : JobRunStore
  clusterCoordinator : ClusterCoordinator
  hostedServices : List HostedService
  deriving DecidableEq, Repr

/-- `TryAddEnumerable` adds an implementation once. -/
def ServiceCollection.addHostedService (services : ServiceCollection) (service : HostedService) : ServiceCollection :=
  if service ∈ services.hostedServices then services
  else { services with hostedServices := services.hostedServices ++ [service] }

inductive Module where
  | efCore
  | redis
  | dashboard
  deriving DecidableEq, Repr

def registerEfCore (services : ServiceCollection) : ServiceCollection :=
  { services with jobRunStore := .efCoreJobRunStore }.addHostedService .schemaBootstrap

def useRedis (services : ServiceCollection) : ServiceCollection :=
  { services with clusterCoordinator := .redisClusterCoordinator }.addHostedService .redisClusterCoordinator

def useDashboard (services : ServiceCollection) : ServiceCollection :=
  services.addHostedService .grpcDashboardReporter

def Module.setup : Module → ServiceCollection → ServiceCollection
  | .efCore => registerEfCore
  | .redis => useRedis
  | .dashboard => useDashboard

/-- The hosted service of a module. -/
def Module.hostedService : Module → HostedService
  | .efCore => .schemaBootstrap
  | .redis => .redisClusterCoordinator
  | .dashboard => .grpcDashboardReporter

/-- What `AddDuckRun` registers before the modules. -/
def defaults : ServiceCollection :=
  ServiceCollection.addHostedService ⟨.inMemoryJobRunStore, .localClusterCoordinator, []⟩ .duckRunSchedulerService

def addDuckRun (moduleSetups : List Module) : ServiceCollection :=
  moduleSetups.foldl (fun services setup => setup.setup services) defaults

/-! ## The host -/

/-- How far a `StartAsync` is. -/
inductive StartPhase where
  | called
  /-- `SchemaBootstrap` has found or created the tables. -/
  | tablesPresent
  /-- In `ReplayInterruptedRunsAsync`, with the rows it has read. -/
  | replaying (stuck : List JobRunRecord)
  | returning
  deriving DecidableEq, Repr

/-- `BackgroundService.StartAsync` and the reporter's only start tasks. -/
def HostedService.begin_ : HostedService → StartPhase
  | .duckRunSchedulerService | .grpcDashboardReporter => .returning
  | .schemaBootstrap | .redisClusterCoordinator => .called

inductive Happening where
  /-- A `StartAsync` completed. -/
  | started (service : HostedService)
  | tablesExist
  /-- The boot replay read the interrupted runs. -/
  | replayed (ids : List Nat)
  /-- The initial leadership tick returned. -/
  | ticked
  /-- The scheduler asked `IsLeaderAsync`. -/
  | checkedLeader
  /-- The scheduler asked the slot gate for a due job. -/
  | attempted (job : JobDescriptor)
  /-- `AddAsync` of a new run. -/
  | adding (id : Nat)
  deriving DecidableEq, Repr

structure Host where
  /-- The hosted services whose `StartAsync` is still to be called. -/
  waiting : List HostedService
  starting : Option (HostedService × StartPhase)
  /-- `ExecuteAsync` of the scheduler has been started. -/
  executing : Bool
  scheduler : Scheduler
  /-- The jobs the `foreach` of the current iteration has still to attempt. -/
  remaining : List (JobDescriptor × Answer)
  /-- The jobs whose slot was granted and whose run is still to be created. -/
  bodies : List JobDescriptor
  /-- `_isLeader` of the Redis coordinator. -/
  isLeader : Bool
  tables : Bool
  rows : List JobRunRecord
  /-- The runs this process has added. -/
  own : List Nat
  /-- Newest first. -/
  history : List Happening

/-- A host about to start, on a database as other processes left it. -/
def Host.initial (services : ServiceCollection) (tables : Bool) (rows : List JobRunRecord) : Host where
  waiting := services.hostedServices
  starting := none
  executing := false
  scheduler := .start
  remaining := []
  bodies := []
  isLeader := false
  tables := tables
  rows := rows
  own := []
  history := if tables then [.tablesExist] else []

/-- `IsLeaderAsync` of either coordinator, which never throws. -/
def Host.isLeaderAsync (services : ServiceCollection) (s : Host) : Bool :=
  match services.clusterCoordinator with
  | .localClusterCoordinator => true
  | .redisClusterCoordinator => s.isLeader

inductive HostEvent where
  /-- The host calls the next `StartAsync`. -/
  | startNext
  | ensureTables
  | readStuck
  | saveReplay (now : Instant)
  /-- The initial tick; it leads or it does not. -/
  | initialTick (granted : Bool)
  | startReturns
  /-- A `StartAsync` throws, which ends the host's startup. -/
  | startThrows
  /-- A later tick of the maintenance loop. -/
  | maintenance (granted : Bool)
  /-- The loop comes round, up to its first attempt. -/
  | iterate (t : Tick)
  /-- The `foreach` comes to the next due job. -/
  | attempt
  /-- A body creates and stores its run. -/
  | addAsync (job : JobDescriptor) (id : Nat) (createdAt : Instant)
  | updateAsync (run : JobRun)
  /-- Other nodes create the tables or write to them. -/
  | otherNode (rows : List JobRunRecord)
  | stop

section Step
variable {ε : Type} (cronos : Cronos ε) (fold : String → String) (registry : JobRegistry fold) (services : ServiceCollection)

/-- One iteration of the loop up to its first attempt; the attempts follow one
by one. Its answers are those of `t`. -/
def Host.iterate (s : Host) (t : Tick) : Host :=
  let scheduler := s.scheduler.iterate cronos fold registry t
  { s with
    scheduler := scheduler
    remaining := (scheduler.log.head?.map Iteration.attempts).getD []
    history := .checkedLeader :: s.history }

/-- `CreateAndStoreRunAsync` of a cron fire. The EF Core store throws where there is no table. -/
def Host.addAsync (s : Host) (job : JobDescriptor) (id : Nat) (createdAt : Instant) : Host :=
  let s := { s with bodies := s.bodies.erase job, history := .adding id :: s.history }
  match services.jobRunStore with
  | .inMemoryJobRunStore => { s with own := s.own ++ [id] }
  | .efCoreJobRunStore =>
    if s.tables then
      { s with
        own := s.own ++ [id]
        rows := s.rows ++ [toRecord (JobExecutor.createRun id createdAt job Source.cron.trigger)] }
    else s

def Host.step (s : Host) : HostEvent → Option Host
  | .startNext =>
    match s.starting, s.waiting with
    | none, service :: waiting =>
      some { s with
        waiting := waiting
        starting := some (service, service.begin_)
        executing := s.executing || service = .duckRunSchedulerService }
    | _, _ => none
  | .ensureTables =>
    match s.starting with
    | some (.schemaBootstrap, .called) =>
      some { s with
        starting := some (.schemaBootstrap, .tablesPresent), tables := true, history := .tablesExist :: s.history }
    | _ => none
  | .readStuck =>
    match s.starting with
    | some (.schemaBootstrap, .tablesPresent) =>
      let stuck := s.rows.filter isStuck
      some { s with
        starting := some (.schemaBootstrap, if stuck = [] then .returning else .replaying stuck)
        history := .replayed (stuck.map JobRunRecord.id) :: s.history }
    | _ => none
  | .saveReplay now =>
    match s.starting with
    | some (.schemaBootstrap, .replaying stuck) =>
      some { s with starting := some (.schemaBootstrap, .returning), rows := Persistence.saveReplay now stuck s.rows }
    | _ => none
  | .initialTick granted =>
    match s.starting with
    | some (.redisClusterCoordinator, .called) =>
      some { s with
        starting := some (.redisClusterCoordinator, .returning), isLeader := granted, history := .ticked :: s.history }
    | _ => none
  | .startReturns =>
    match s.starting with
    | some (service, .returning) => some { s with starting := none, history := .started service :: s.history }
    | _ => none
  | .startThrows =>
    match s.starting with
    | some _ => some { s with starting := none, waiting := [] }
    | none => none
  | .maintenance granted => if .ticked ∈ s.history then some { s with isLeader := granted } else none
  | .iterate t =>
    if s.executing ∧ s.remaining = [] ∧ s.scheduler.status = .looping ∧ s.scheduler.stopRequested = false ∧
        t.leaderCheck = some (s.isLeaderAsync services) then
      some (s.iterate cronos fold registry t)
    else none
  | .attempt =>
    match s.remaining with
    | (job, answer) :: remaining =>
      some { s with
        remaining := remaining
        bodies := if answer = .granted then s.bodies ++ [job] else s.bodies
        history := .attempted job :: s.history }
    | [] => none
  | .addAsync job id createdAt =>
    if job ∈ s.bodies ∧ id ∉ s.own ∧ id ∉ s.rows.map JobRunRecord.id then some (s.addAsync services job id createdAt)
    else none
  | .updateAsync run =>
    if run.id ∈ s.own then some { s with rows := updateKey JobRunRecord.id run.id (fun _ => toRecord run) s.rows }
    else none
  | .otherNode rows => some { s with tables := true, rows := rows, history := .tablesExist :: s.history }
  | .stop => some { s with scheduler := { s.scheduler with stopRequested := true } }

end Step

/-- What `AddAsync` changes of a startup is its history. -/
theorem addAsync_frame (services : ServiceCollection) (s : Host) (job : JobDescriptor) (id : Nat) (createdAt : Instant) :
    (s.addAsync services job id createdAt).starting = s.starting ∧
      (s.addAsync services job id createdAt).waiting = s.waiting ∧
      (s.addAsync services job id createdAt).history = .adding id :: s.history ∧
      (s.addAsync services job id createdAt).bodies = s.bodies.erase job ∧
      (s.addAsync services job id createdAt).remaining = s.remaining ∧
      (s.addAsync services job id createdAt).scheduler = s.scheduler := by
  unfold Host.addAsync
  cases services.jobRunStore with
  | inMemoryJobRunStore => exact ⟨rfl, rfl, rfl, rfl, rfl, rfl⟩
  | efCoreJobRunStore =>
    dsimp only
    split <;> exact ⟨rfl, rfl, rfl, rfl, rfl, rfl⟩

/-! ## What is registered -/

theorem hostedServices_add (services : ServiceCollection) (service : HostedService) :
    (services.addHostedService service).hostedServices =
      if service ∈ services.hostedServices then services.hostedServices else services.hostedServices ++ [service] := by
  unfold ServiceCollection.addHostedService
  split <;> rfl

theorem clusterCoordinator_add (services : ServiceCollection) (service : HostedService) :
    (services.addHostedService service).clusterCoordinator = services.clusterCoordinator := by
  unfold ServiceCollection.addHostedService
  split <;> rfl

theorem nodup_add {services : ServiceCollection} {service : HostedService} (h : services.hostedServices.Nodup) :
    (services.addHostedService service).hostedServices.Nodup := by
  rw [hostedServices_add]
  split
  · exact h
  · rename_i hnew
    apply List.nodup_append.2
    refine ⟨h, List.nodup_singleton _, ?_⟩
    rintro a ha b hb rfl
    rw [List.mem_singleton] at hb
    exact hnew (hb ▸ ha)

theorem mem_add {services : ServiceCollection} {service other : HostedService} :
    other ∈ (services.addHostedService service).hostedServices ↔ other ∈ services.hostedServices ∨ service = other := by
  rw [hostedServices_add]
  split
  · rename_i hold
    exact ⟨.inl, fun h => h.elim id fun he => he ▸ hold⟩
  · rw [List.mem_append, List.mem_singleton, eq_comm]

theorem head_add {services : ServiceCollection} {service first : HostedService}
    (h : services.hostedServices.head? = some first) :
    (services.addHostedService service).hostedServices.head? = some first := by
  rw [hostedServices_add]
  split
  · exact h
  · rw [List.head?_append, h]
    rfl

/-- A setup adds the module's hosted service to what is there. -/
theorem setup_hostedServices (m : Module) (services : ServiceCollection) :
    (m.setup services).hostedServices = (services.addHostedService m.hostedService).hostedServices := by
  cases m <;> rw [hostedServices_add]
  · exact hostedServices_add _ _
  · exact hostedServices_add _ _
  · exact hostedServices_add _ _

theorem setup_clusterCoordinator (m : Module) (services : ServiceCollection) :
    (m.setup services).clusterCoordinator =
      if m = .redis then .redisClusterCoordinator else services.clusterCoordinator := by
  cases m
  · exact clusterCoordinator_add _ _
  · exact clusterCoordinator_add _ _
  · exact clusterCoordinator_add _ _

theorem addDuckRun_snoc (modules : List Module) (m : Module) :
    addDuckRun (modules ++ [m]) = m.setup (addDuckRun modules) := by
  unfold addDuckRun
  rw [List.foldl_append]
  rfl

/-- The scheduler's service comes first, and every service once. -/
theorem addDuckRun_hostedServices (modules : List Module) :
    (addDuckRun modules).hostedServices.head? = some .duckRunSchedulerService ∧
      (addDuckRun modules).hostedServices.Nodup ∧
      ∀ service, service ∈ (addDuckRun modules).hostedServices ↔
        service = .duckRunSchedulerService ∨ ∃ m ∈ modules, m.hostedService = service := by
  induction modules using List.reverseRecOn with
  | nil => exact ⟨rfl, by decide, by simp [addDuckRun, defaults, ServiceCollection.addHostedService]⟩
  | append_singleton modules m ih =>
    obtain ⟨hhead, hnodup, hmem⟩ := ih
    rw [addDuckRun_snoc, setup_hostedServices]
    refine ⟨head_add hhead, nodup_add hnodup, fun service => ?_⟩
    rw [mem_add, hmem, or_assoc]
    simp only [List.mem_append, List.mem_singleton, or_and_right, exists_or, exists_eq_left]

theorem addDuckRun_clusterCoordinator (modules : List Module) :
    (addDuckRun modules).clusterCoordinator =
      if .redis ∈ modules then .redisClusterCoordinator else .localClusterCoordinator := by
  induction modules using List.reverseRecOn with
  | nil => rfl
  | append_singleton modules m ih =>
    rw [addDuckRun_snoc, setup_clusterCoordinator, ih]
    by_cases hm : m = .redis
    · simp [hm]
    · simp [hm, Ne.symm hm]

end DuckRun.Hosting
