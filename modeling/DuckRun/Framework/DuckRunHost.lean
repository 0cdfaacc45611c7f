import DuckRun.Runtime.Discovery
import DuckRun.Lib.Machine
import DuckRun.Lib.Throwing
/-!
# The host on .NET Framework

`DuckRunHost` is process-wide: `Start` builds an instance and starts it, `Stop`
stops it, both under one lock. The instance is published before it is started,
so a hosted service that fails to start leaves an instance behind that is
neither running nor gone.
-/

namespace DuckRun.Framework

open DuckRun.Lib DuckRun.Lib.Throwing DuckRun.Runtime

/-! ## Configuration -/

/-- An `IHostedService`, and whether its `StartAsync` throws. What `StopAsync`
throws is swallowed. -/
structure HostedService where
  id : Nat
  startThrows : Bool
  deriving DecidableEq, Repr

inductive HostException where
  | argumentNull
  | invalidOperation (message : String)
  | discovery (e : DiscoveryException)
  /-- Out of the application's `configure`, a module's setup, or the logger factory. -/
  | configuration (message : String)
  | startAsync (service : HostedService)
  /-- `Cancel` throws what the callbacks on the token threw. -/
  | aggregate

/-- `DuckRunOptions`. A setup adds hosted services to those of the setups before. -/
structure DuckRunOptions where
  assembliesToScan : List (List ClrType)
  explicitJobs : List JobDescriptor
  moduleSetups : List (List HostedService → Except String (List HostedService))

structure DuckRunInstance where
  hosted : List HostedService
  /-- `_cts` of the scheduler loop is set. -/
  schedulerStarted : Bool

/-- `_current`, and the services whose `StartAsync` has returned and that have
not been stopped since. -/
structure DuckRunHost where
  current : Option DuckRunInstance
  running : List HostedService

def DuckRunHost.initial : DuckRunHost := ⟨none, []⟩

/-- `Controller` is not null. -/
def DuckRunHost.controller (s : DuckRunHost) : Bool := s.current.isSome

/-- `foreach (var setup in options.ModuleSetups) setup(ctx)`. -/
def runSetups (setups : List (List HostedService → Except String (List HostedService))) : Except String (List HostedService) :=
  setups.foldlM (fun ctx setup => setup ctx) []

section Host
variable {ε : Type} (cronos : Cronos ε) (fold : String → String)

/-- `DuckRunInstance.Build`. -/
def DuckRunInstance.build (options : DuckRunOptions) (createLogger : Except String Unit) :
    Except HostException DuckRunInstance := do
  let _ ← (JobScanner.build cronos fold options.assembliesToScan options.explicitJobs).mapError .discovery
  let hosted ← (runSetups options.moduleSetups).mapError .configuration
  createLogger.mapError .configuration
  return ⟨hosted, false⟩

def startAsync (service : HostedService) : Throwing HostException DuckRunHost Unit :=
  if service.startThrows then throw (.startAsync service)
  else modify fun s => { s with running := s.running ++ [service] }

/-- `foreach (var svc in _hosted) svc.StartAsync(...)`. -/
def startAll : List HostedService → Throwing HostException DuckRunHost Unit
  | [] => pure ()
  | service :: rest => do
    startAsync service
    startAll rest

/-- `DuckRunInstance.Start`, on the instance in `_current`. -/
def DuckRunInstance.start (instance_ : DuckRunInstance) : Throwing HostException DuckRunHost Unit := do
  startAll instance_.hosted
  modify fun s => { s with current := s.current.map fun i => { i with schedulerStarted := true } }

/-- `DuckRunInstance.Stop`. `SchedulerLoop.Stop` lets an exception of `Cancel` through. -/
def DuckRunInstance.stop (instance_ : DuckRunInstance) (cancelThrows : Bool) : Throwing HostException DuckRunHost Unit := do
  if instance_.schedulerStarted && cancelThrows then throw .aggregate
  modify fun s => { s with running := s.running.filter fun service => service ∉ instance_.hosted }

/-- What `Start` is called with: null, or a `configure` that throws or fills in
options, and the logger factory of that moment. -/
structure Configuration where
  configure : Option (Except String DuckRunOptions)
  createLogger : Except String Unit

def DuckRunHost.start (c : Configuration) : Throwing HostException DuckRunHost Unit := do
  match c.configure with
  | none => throw .argumentNull
  | some configured => do
    let s ← get
    if s.current.isSome then throw (.invalidOperation "DuckRun has already been started in this process.")
    let options ← ofExcept (configured.mapError .configuration)
    let instance_ ← ofExcept (DuckRunInstance.build cronos fold options c.createLogger)
    modify fun s => { s with current := some instance_ }
    instance_.start

def DuckRunHost.stop (cancelThrows : Bool) : Throwing HostException DuckRunHost Unit := do
  let s ← get
  match s.current with
  | none => pure ()
  | some instance_ => instance_.stop cancelThrows
  modify fun s => { s with current := none }

/-! ## Calls -/

inductive HostCall where
  | start (c : Configuration)
  | stop (cancelThrows : Bool)

def HostCall.isStart : HostCall → Bool
  | .start _ => true
  | .stop _ => false

/-- The process with what is remembered of the calls: the last one that
returned, and how the last one of all ended. -/
structure HostProcess where
  host : DuckRunHost
  /-- `some true` for `Start`. -/
  lastSuccessful : Option Bool
  lastResult : Except HostException Unit

def HostProcess.initial : HostProcess := ⟨.initial, none, .ok ()⟩

def HostCall.run : HostCall → Throwing HostException DuckRunHost Unit
  | .start c => DuckRunHost.start cronos fold c
  | .stop cancelThrows => DuckRunHost.stop cancelThrows

def HostProcess.step (p : HostProcess) (call : HostCall) : Option HostProcess :=
  match call.run cronos fold p.host with
  | (.ok (), host) => some ⟨host, some call.isStart, .ok ()⟩
  | (.error e, host) => some ⟨host, p.lastSuccessful, .error e⟩

end Host

/-! ## What the calls do -/

section Specs
variable {ε : Type} {cronos : Cronos ε} {fold : String → String}

/-- `configure` and `Build` together. -/
def built (cronos : Cronos ε) (fold : String → String) (configured : Except String DuckRunOptions)
    (createLogger : Except String Unit) : Except HostException DuckRunInstance :=
  configured.mapError .configuration >>= fun options => DuckRunInstance.build cronos fold options createLogger

/-- Thrown while the instance is built or its services are started. -/
def HostException.ofStart : HostException → Bool
  | .discovery _ | .configuration _ | .startAsync _ => true
  | _ => false

theorem startAll_ok {services : List HostedService} (h : ∀ service ∈ services, service.startThrows = false) (s : DuckRunHost) :
    startAll services s = (.ok (), { s with running := s.running ++ services }) := by
  induction services generalizing s with
  | nil => simp [startAll]
  | cons service services ih =>
    obtain ⟨hservice, hrest⟩ := List.forall_mem_cons.1 h
    simp [startAll, startAsync, hservice, ih hrest]

/-- The services before the one that throws have been started, and stay so. -/
theorem startAll_throws {services : List HostedService} (h : ¬ ∀ service ∈ services, service.startThrows = false)
    (s : DuckRunHost) :
    ∃ service started, startAll services s = (.error (.startAsync service), { s with running := s.running ++ started }) := by
  induction services generalizing s with
  | nil => exact absurd nofun h
  | cons service services ih =>
    by_cases hservice : service.startThrows = true
    · exact ⟨service, [], by simp [startAll, startAsync, hservice]⟩
    · have hrest : ¬ ∀ service ∈ services, service.startThrows = false := fun hall =>
        h (List.forall_mem_cons.2 ⟨Bool.not_eq_true _ ▸ hservice, hall⟩)
      obtain ⟨failed, started, hstart⟩ := ih hrest { s with running := s.running ++ [service] }
      exact ⟨failed, service :: started, by simp [startAll, startAsync, hservice, hstart]⟩

variable {c : Configuration} {configured : Except String DuckRunOptions} {s : DuckRunHost}

theorem start_null (h : c.configure = none) : DuckRunHost.start cronos fold c s = (.error .argumentNull, s) := by
  unfold DuckRunHost.start
  rw [h]
  rfl

theorem start_started (h : c.configure = some configured) (hs : s.current.isSome = true) :
    DuckRunHost.start cronos fold c s =
      (.error (.invalidOperation "DuckRun has already been started in this process."), s) := by
  unfold DuckRunHost.start
  rw [h]
  simp [hs]

/-- What `Start` does in a process that is not started. -/
theorem start_unstarted (h : c.configure = some configured) (hs : s.current = none) :
    DuckRunHost.start cronos fold c s =
      match built cronos fold configured c.createLogger with
      | .error e => (.error e, s)
      | .ok instance_ => instance_.start { s with current := some instance_ } := by
  unfold DuckRunHost.start built
  rw [h]
  simp only [bind_apply, get_apply, andThen_ok, hs, Option.isSome_none, Bool.false_eq_true, if_false, ofExcept_apply]
  cases hconfigured : configured.mapError HostException.configuration with
  | error e => rfl
  | ok options =>
    have hbind : (Except.ok options >>= fun options => DuckRunInstance.build cronos fold options c.createLogger) =
        DuckRunInstance.build cronos fold options c.createLogger := rfl
    rw [andThen_ok, hbind]
    cases DuckRunInstance.build cronos fold options c.createLogger <;> rfl

theorem start_ok {instance_ : DuckRunInstance} (h : ∀ service ∈ instance_.hosted, service.startThrows = false) :
    instance_.start { s with current := some instance_ } =
      (.ok (), ⟨some { instance_ with schedulerStarted := true }, s.running ++ instance_.hosted⟩) := by
  simp [DuckRunInstance.start, startAll_ok h]

theorem start_throws {instance_ : DuckRunInstance} (h : ¬ ∀ service ∈ instance_.hosted, service.startThrows = false) :
    ∃ service started, instance_.start { s with current := some instance_ } =
      (.error (.startAsync service), ⟨some instance_, s.running ++ started⟩) := by
  obtain ⟨service, started, hstart⟩ := startAll_throws h { s with current := some instance_ }
  exact ⟨service, started, by simp [DuckRunInstance.start, hstart]⟩

theorem stop_none (h : s.current = none) (cancelThrows : Bool) : DuckRunHost.stop cancelThrows s = (.ok (), s) := by
  obtain ⟨current, running⟩ := s
  cases h
  rfl

theorem stop_some {instance_ : DuckRunInstance} (h : s.current = some instance_) (cancelThrows : Bool) :
    DuckRunHost.stop cancelThrows s =
      if instance_.schedulerStarted && cancelThrows then (.error .aggregate, s)
      else (.ok (), ⟨none, s.running.filter fun service => service ∉ instance_.hosted⟩) := by
  unfold DuckRunHost.stop DuckRunInstance.stop
  simp only [bind_apply, get_apply, andThen_ok, h]
  split <;> simp

/-! ## The law -/

/-- A configuration under which an instance can be built and started. -/
def Works (cronos : Cronos ε) (fold : String → String) (c : Configuration) : Prop :=
  ∃ configured instance_, c.configure = some configured ∧ built cronos fold configured c.createLogger = .ok instance_ ∧
    ∀ service ∈ instance_.hosted, service.startThrows = false

/-- `Controller` is there exactly after a `Start` that returned; a `Start` that
threw while building or starting has left nothing running and can be repeated. -/
structure HostProcess.Lawful (cronos : Cronos ε) (fold : String → String) (p : HostProcess) : Prop where
  controller : p.host.controller = true ↔ p.lastSuccessful = some true
  failed : ∀ e, p.lastResult = .error e → e.ofStart = true →
    p.host.controller = false ∧ p.host.running = [] ∧
      ∀ c, Works cronos fold c → (DuckRunHost.start cronos fold c p.host).1 = .ok ()

/-- In an unstarted process, no hosted service of an instance that is built throws. -/
def StartsCleanly (cronos : Cronos ε) (fold : String → String) (p : HostProcess) : HostCall → Prop
  | .start c => p.host.current = none → ∀ configured instance_, c.configure = some configured →
      built cronos fold configured c.createLogger = .ok instance_ → ∀ service ∈ instance_.hosted, service.startThrows = false
  | .stop _ => True

/-- The invariant of a process in which no service has failed to start. -/
structure Sound (p : HostProcess) : Prop where
  controller : p.host.controller = true ↔ p.lastSuccessful = some true
  idle : p.host.current = none → p.host.running = []
  running : ∀ instance_, p.host.current = some instance_ → ∀ service ∈ p.host.running, service ∈ instance_.hosted
  failed : ∀ e, p.lastResult = .error e → e.ofStart = true → p.host.current = none

theorem sound_initial : Sound .initial where
  controller := ⟨nofun, nofun⟩
  idle _ := rfl
  running := nofun
  failed := nofun

theorem lawful_of_sound {p : HostProcess} (h : Sound p) : p.Lawful cronos fold where
  controller := h.controller
  failed e he hstart := by
    have hnone := h.failed e he hstart
    refine ⟨by rw [DuckRunHost.controller, hnone]; rfl, h.idle hnone, ?_⟩
    rintro c ⟨configured, instance_, hconfigure, hbuilt, hservices⟩
    rw [start_unstarted hconfigure hnone, hbuilt]
    exact congrArg Prod.fst (start_ok hservices)

variable {p p' : HostProcess} {call : HostCall}

theorem step_result (h : p.step cronos fold call = some p') {r : Except HostException Unit} {host : DuckRunHost}
    (hrun : call.run cronos fold p.host = (r, host)) :
    p'.host = host ∧ p'.lastResult = r ∧
      p'.lastSuccessful = (match r with | .ok () => some call.isStart | .error _ => p.lastSuccessful) := by
  unfold HostProcess.step at h
  rw [hrun] at h
  cases r <;> cases h <;> exact ⟨rfl, rfl, rfl⟩

/-- A call that throws and changes nothing. -/
theorem sound_refused (hs : Sound p) (h : p.step cronos fold call = some p') {e : HostException}
    (hrun : call.run cronos fold p.host = (.error e, p.host)) (hstart : e.ofStart = true → p.host.current = none) :
    Sound p' := by
  obtain ⟨hhost, hresult, hlast⟩ := step_result h hrun
  refine ⟨by rw [hhost, hlast]; exact hs.controller, by rw [hhost]; exact hs.idle, by rw [hhost]; exact hs.running, ?_⟩
  rw [hhost, hresult]
  rintro e' ⟨⟩
  exact hstart

theorem sound_step (hs : Sound p) (hclean : StartsCleanly cronos fold p call) (h : p.step cronos fold call = some p') :
    Sound p' := by
  cases call with
  | start c =>
    cases hconfigure : c.configure with
    | none => exact sound_refused hs h (start_null hconfigure) nofun
    | some configured =>
      cases hcurrent : p.host.current with
      | some instance_ =>
        exact sound_refused hs h (start_started hconfigure (by rw [hcurrent]; rfl)) nofun
      | none =>
        have hrun := @start_unstarted _ cronos fold c configured p.host hconfigure hcurrent
        cases hbuilt : built cronos fold configured c.createLogger with
        | error e =>
          rw [hbuilt] at hrun
          exact sound_refused hs h hrun fun _ => hcurrent
        | ok instance_ =>
          rw [hbuilt] at hrun
          obtain ⟨hhost, hresult, hlast⟩ := step_result h
            (hrun.trans (start_ok (hclean hcurrent configured instance_ hconfigure hbuilt)))
          refine ⟨?_, ?_, ?_, ?_⟩
          · rw [hhost, hlast]
            exact ⟨fun _ => rfl, fun _ => rfl⟩
          · rw [hhost]
            exact nofun
          · rw [hhost, hs.idle hcurrent]
            rintro instance' ⟨⟩ service hservice
            exact hservice
          · rw [hresult]
            exact nofun
  | stop cancelThrows =>
    cases hcurrent : p.host.current with
    | none =>
      obtain ⟨hhost, hresult, hlast⟩ := step_result h (stop_none hcurrent cancelThrows)
      refine ⟨?_, by rw [hhost]; exact hs.idle, by rw [hhost]; exact hs.running, by rw [hresult]; exact nofun⟩
      rw [hhost, hlast, DuckRunHost.controller, hcurrent]
      exact ⟨nofun, nofun⟩
    | some instance_ =>
      have hrun := @stop_some p.host instance_ hcurrent cancelThrows
      by_cases hthrows : (instance_.schedulerStarted && cancelThrows) = true
      · rw [if_pos hthrows] at hrun
        exact sound_refused hs h hrun nofun
      · rw [if_neg hthrows] at hrun
        obtain ⟨hhost, hresult, hlast⟩ := step_result h hrun
        refine ⟨?_, ?_, ?_, by rw [hresult]; exact nofun⟩
        · rw [hhost, hlast]
          exact ⟨nofun, nofun⟩
        · rw [hhost]
          intro _
          refine List.filter_eq_nil_iff.2 fun service hservice => ?_
          simpa using hs.running instance_ hcurrent service hservice
        · rw [hhost]
          exact nofun

/-- A service that fails to start breaks the law. -/
theorem clean_of_lawful (h : p.step cronos fold call = some p') (hlawful : p'.Lawful cronos fold) :
    StartsCleanly cronos fold p call := by
  cases call with
  | stop cancelThrows => trivial
  | start c =>
    intro hcurrent configured instance_ hconfigure hbuilt
    by_contra hthrows
    obtain ⟨service, started, hstart⟩ := @start_throws p.host instance_ hthrows
    have hrun := @start_unstarted _ cronos fold c configured p.host hconfigure hcurrent
    rw [hbuilt] at hrun
    obtain ⟨hhost, hresult, -⟩ := step_result h (hrun.trans hstart)
    have hnull := (hlawful.failed _ hresult rfl).1
    rw [hhost] at hnull
    cases hnull

/-- Over any sequence of `Start` and `Stop` calls: the law holds after every
call exactly if no `Start` in an unstarted process met a hosted service whose
`StartAsync` throws. -/
theorem host_lawful_iff (cronos : Cronos ε) (fold : String → String) (calls : List HostCall) (p : HostProcess)
    (h : exec (HostProcess.step cronos fold) .initial calls = some p) :
    (∀ pre q, pre <+: calls → exec (HostProcess.step cronos fold) .initial pre = some q → q.Lawful cronos fold) ↔
      Along (HostProcess.step cronos fold) (StartsCleanly cronos fold) .initial calls :=
  forall_prefix_iff_along Sound (HostProcess.Lawful cronos fold) (fun _ => lawful_of_sound)
    (fun _ _ _ hs hstep hclean => sound_step hs hclean hstep) (fun _ _ _ _ hstep => clean_of_lawful hstep) sound_initial h

end Specs

/-! ## A service that fails to start -/

/-- A configuration without jobs. -/
def configurationOf (services : List HostedService) : Configuration where
  configure := some (.ok ⟨[], [], [fun ctx => .ok (ctx ++ services)]⟩)
  createLogger := .ok ()

theorem configurationOf_clean {services : List HostedService} (h : ∀ service ∈ services, service.startThrows = false)
    (p : HostProcess) : StartsCleanly cronosOfPeriods id p (.start (configurationOf services)) := by
  rintro - configured instance_ ⟨⟩ hbuilt
  have heq : built cronosOfPeriods id (.ok ⟨[], [], [fun ctx => .ok (ctx ++ services)]⟩) (.ok ()) = .ok ⟨services, false⟩ := rfl
  cases heq.symm.trans hbuilt
  exact h

/-- `Start` without a `configure`, with one that throws, and twice over; `Stop`
that throws, that works, and that finds nothing; and a second life. -/
def restarted : List HostCall :=
  [.start ⟨none, .ok ()⟩, .start ⟨some (.error "no connection string"), .ok ()⟩,
    .start (configurationOf [⟨0, false⟩, ⟨1, false⟩]), .start (configurationOf [⟨2, false⟩]), .stop true, .stop false,
    .stop false, .start (configurationOf [⟨1, false⟩, ⟨3, false⟩])]

theorem restarted_clean : Along (HostProcess.step cronosOfPeriods id) (StartsCleanly cronosOfPeriods id) .initial restarted := by
  refine along_cons (fun _ configured _ hc => by cases hc) rfl (along_cons ?_ rfl
    (along_cons (configurationOf_clean (by decide) _) rfl (along_cons (configurationOf_clean (by decide) _) rfl
    (along_cons trivial rfl (along_cons trivial rfl (along_cons trivial rfl
    (along_cons (configurationOf_clean (by decide) _) rfl trivial)))))))
  -- What `configure` throws leaves no instance to start.
  rintro - configured instance_ ⟨⟩ hbuilt
  cases hbuilt

theorem host_lawful_restarted :
    ∃ p, exec (HostProcess.step cronosOfPeriods id) .initial restarted = some p ∧
      p.host.running = [⟨1, false⟩, ⟨3, false⟩] ∧ p.host.controller = true ∧
      ∀ pre q, pre <+: restarted → exec (HostProcess.step cronosOfPeriods id) .initial pre = some q →
        q.Lawful cronosOfPeriods id :=
  ⟨_, rfl, rfl, rfl, (host_lawful_iff cronosOfPeriods id restarted _ rfl).2 restarted_clean⟩

/-- The instance stays although the second of its services has thrown. -/
theorem failed_start_stays :
    ¬ ∀ (ε : Type) (cronos : Cronos ε) (fold : String → String) (calls : List HostCall) (p : HostProcess),
      exec (HostProcess.step cronos fold) .initial calls = some p → p.Lawful cronos fold := by
  intro hall
  have hlawful := hall Period cronosOfPeriods id [.start (configurationOf [⟨0, false⟩, ⟨1, true⟩])] _ rfl
  exact absurd (hlawful.failed _ rfl rfl).1 (by decide)

end DuckRun.Framework
