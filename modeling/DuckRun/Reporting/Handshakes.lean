import DuckRun.Dashboard.Registrations
import DuckRun.Reporting.GrpcDashboardReporter
/-!
# Registering jobs with the dashboard

Every node of a project sends its job definitions until one handshake is
answered, waiting longer after every failure, and heartbeats meanwhile. A
handshake may be saved and its answer lost, so the dashboard may know a node
that still retries; but a node that has its answer is known with all its jobs.
-/

namespace DuckRun.Reporting

open DuckRun.Lib DuckRun.Dashboard DuckRun.Runtime

/-! ## The request -/

/-- What a reporter is started with. -/
structure ReporterNode where
  header : Option Text
  nodeId : Text
  clientVersion : Text
  jobs : List JobDescriptor

/-- `(int)(job.Timeout?.TotalSeconds ?? 0)`. -/
def timeoutSeconds (job : JobDescriptor) : Int := (job.timeout.getD 0).tdiv 10000000

def toDefinition (job : JobDescriptor) : JobDefinitionMessage where
  name := job.name.toList
  cron := job.cron.toList
  maxConcurrency := if job.maxConcurrency = intMaxValue then 0 else job.maxConcurrency
  timeoutSeconds := timeoutSeconds job
  allowManualTrigger := job.allowManualTrigger
  enabled := job.enabled

/-- The request of `SendHandshakeAsync`. -/
def ReporterNode.handshake (node : ReporterNode) (utcNow : Instant) : HandshakeRequest where
  nodeId := node.nodeId
  clientVersion := node.clientVersion
  runtime := "net10.0".toList
  jobs := node.jobs.map toDefinition
  startedAt := some (fromDateTimeOffset utcNow)

/-- The request of `HeartbeatLoopAsync`. -/
def ReporterNode.heartbeat (node : ReporterNode) (utcNow : Instant) (isLeader : Bool) : HeartbeatRequest where
  nodeId := node.nodeId
  at_ := some (fromDateTimeOffset utcNow)
  isLeader := isLeader

/-! ## The loop -/

inductive HandshakePhase where
  /-- In `SendHandshakeAsync`, or on the way to it. -/
  | attempting
  /-- In `Task.Delay`. -/
  | delaying
  /-- Returned after an answer. -/
  | connected
  /-- Returned by the stop. -/
  | stopped
  deriving DecidableEq, Repr

structure HandshakeLoop where
  phase : HandshakePhase
  /-- `delay`, in seconds. -/
  delay : Nat
  stopping : Bool
  /-- The delays so far. -/
  waits : List Nat

def HandshakeLoop.start : HandshakeLoop := ⟨.attempting, 2, false, []⟩

def maxDelay : Nat := 30

/-- `SendHandshakeAsync` is over. -/
def HandshakeLoop.attempted (loop : HandshakeLoop) : SendOutcome → HandshakeLoop
  | .delivered => { loop with phase := .connected }
  | .cancelled => { loop with phase := .stopped }
  | .failed => { loop with phase := .delaying, waits := loop.waits ++ [loop.delay] }

structure Connecting where
  loops : Nat → HandshakeLoop
  desk : IngestDesk

def Connecting.initial (db : IngestDb) : Connecting := ⟨fun _ => .start, ⟨db, []⟩⟩

inductive ConnectingEvent where
  /-- The dashboard handles the handshake of node `i`; its answer may be lost. -/
  | handshake (i : Nat) (utcNow : Instant) (env : IngestAmbient) (accepted : Bool) (outcome : SendOutcome)
  /-- The call ends without reaching the dashboard. -/
  | handshakeFails (i : Nat) (cancelled : Bool)
  | delayEnds (i : Nat)
  | stop (i : Nat)
  /-- The loop sees the stop, between two attempts or in its delay. -/
  | leave (i : Nat)
  | heartbeat (i : Nat) (utcNow : Instant) (isLeader : Bool) (env : IngestAmbient) (accepted : Bool)
  /-- Any other call of the service. -/
  | ingest (e : IngestEvent)

section Step
variable (chars : CharTable) (tryParse : Text → Option Guid) (nodes : Nat → ReporterNode)

def Connecting.setLoop (s : Connecting) (i : Nat) (loop : HandshakeLoop) : Connecting :=
  { s with loops := Function.update s.loops i loop }

def Connecting.call (s : Connecting) (e : IngestEvent) : Option Connecting :=
  (s.desk.step chars tryParse e).map fun desk => { s with desk := desk }

def Connecting.step (s : Connecting) : ConnectingEvent → Option Connecting
  | .handshake i utcNow env accepted outcome =>
    let node := nodes i
    let reply := (unaryServerHandler chars tryParse env accepted s.desk.db node.header (.handshake (node.handshake utcNow))).1
    if (s.loops i).phase ≠ .attempting ∨ (outcome = .delivered ∧ reply.succeeded = false) then none
    else (s.call chars tryParse ⟨env, accepted, node.header, .handshake (node.handshake utcNow)⟩).map fun s =>
      s.setLoop i ((s.loops i).attempted outcome)
  | .handshakeFails i cancelled =>
    if (s.loops i).phase ≠ .attempting then none
    else some (s.setLoop i ((s.loops i).attempted (if cancelled then .cancelled else .failed)))
  | .delayEnds i =>
    let loop := s.loops i
    if loop.phase ≠ .delaying then none
    else some (s.setLoop i { loop with phase := .attempting, delay := min maxDelay (loop.delay * 2) })
  | .stop i => some (s.setLoop i { s.loops i with stopping := true })
  | .leave i =>
    let loop := s.loops i
    if loop.stopping ∧ (loop.phase = .attempting ∨ loop.phase = .delaying) then some (s.setLoop i { loop with phase := .stopped })
    else none
  | .heartbeat i utcNow isLeader env accepted =>
    s.call chars tryParse ⟨env, accepted, (nodes i).header, .sendHeartbeat ((nodes i).heartbeat utcNow isLeader)⟩
  | .ingest e => s.call chars tryParse e

end Step

/-! ## The delays -/

/-- 2, 4, 8, 16 and then 30 seconds. -/
def backoff (k : Nat) : Nat := min maxDelay (2 ^ (k + 1))

theorem backoff_succ (k : Nat) : min maxDelay (backoff k * 2) = backoff (k + 1) := by
  unfold backoff maxDelay
  have hpow : 2 ^ (k + 1 + 1) = 2 ^ (k + 1) * 2 := pow_succ 2 (k + 1)
  omega

/-- The delays so far, and the one that comes next or is on. -/
structure BacksOff (loop : HandshakeLoop) : Prop where
  waits : loop.waits = (List.range loop.waits.length).map backoff
  next : loop.phase = .attempting → loop.delay = backoff loop.waits.length
  on : loop.phase = .delaying → ∃ k, loop.waits.length = k + 1 ∧ loop.delay = backoff k

theorem backsOff_start : BacksOff .start where
  waits := rfl
  next _ := rfl
  on h := by cases h

theorem backsOff_attempted {loop : HandshakeLoop} (hi : BacksOff loop) (hphase : loop.phase = .attempting) (outcome : SendOutcome) :
    BacksOff (loop.attempted outcome) := by
  cases outcome with
  | delivered => exact ⟨hi.waits, fun h => (by cases h), fun h => (by cases h)⟩
  | cancelled => exact ⟨hi.waits, fun h => (by cases h), fun h => (by cases h)⟩
  | failed =>
    refine ⟨?_, fun h => (by cases h), fun _ => ⟨loop.waits.length, ?_, hi.next hphase⟩⟩
    · simp only [HandshakeLoop.attempted, List.length_append, List.length_singleton, List.range_succ, List.map_append,
        List.map_singleton, ← hi.waits, ← hi.next hphase]
    · simp [HandshakeLoop.attempted]

theorem backsOff_again {loop : HandshakeLoop} (hi : BacksOff loop) (hphase : loop.phase = .delaying) :
    BacksOff { loop with phase := .attempting, delay := min maxDelay (loop.delay * 2) } where
  waits := hi.waits
  next _ := by
    obtain ⟨k, hk, hdelay⟩ := hi.on hphase
    dsimp only
    rw [hdelay, backoff_succ, hk]
  on h := by cases h

/-! ## What the dashboard knows -/

section Run
variable {chars : CharTable} {tryParse : Text → Option Guid} {nodes : Nat → ReporterNode} {before : IngestDb} {projectId : Guid}

/-- A handshake of node `i` that was saved in the project. -/
def HandshakeOf (nodes : Nat → ReporterNode) (projectId : Guid) (i : Nat) (c : SavedCall) : Prop :=
  c.projectId = projectId ∧ ∃ utcNow, c.call = .handshake ((nodes i).handshake utcNow)

/-- No other call is a handshake under a key of the project. -/
def ConnectingEvent.Spares (chars : CharTable) (before : IngestDb) (projectId : Guid) : ConnectingEvent → Prop
  | .ingest e => ∀ request apiKey, e.call = .handshake request → resolveAsync chars before.tables e.header = .ok apiKey →
      apiKey.projectId ≠ projectId
  | _ => True

structure ConnectInv (chars : CharTable) (nodes : Nat → ReporterNode) (before : IngestDb) (projectId : Guid) (s : Connecting) :
    Prop where
  registered : Registered chars s.desk
  keys : s.desk.db.tables.apiKeys = before.tables.apiKeys
  backsOff : ∀ i, BacksOff (s.loops i)
  /-- The project's handshakes are the nodes' own. -/
  own : ∀ c ∈ s.desk.saved, c.projectId = projectId → ∀ request, c.call = .handshake request → ∃ i, HandshakeOf nodes projectId i c
  /-- A loop that was answered has been heard. -/
  heard : ∀ i, (s.loops i).phase = .connected → ∃ c ∈ s.desk.saved, HandshakeOf nodes projectId i c

/-- A call saves at most itself. -/
theorem desk_step {desk desk' : IngestDesk} {e : IngestEvent} (h : desk.step chars tryParse e = some desk') :
    desk'.db.tables.apiKeys = desk.db.tables.apiKeys ∧
      (desk'.saved = desk.saved ∨ ∃ apiKey, resolveAsync chars desk.db.tables e.header = .ok apiKey ∧
        desk'.saved = desk.saved ++ [⟨apiKey.projectId, e.env, e.call⟩]) := by
  simp only [IngestDesk.step] at h
  split at h
  · cases h
    exact ⟨rfl, .inl rfl⟩
  · rename_i apiKey hkey
    cases h
    refine ⟨unaryServerHandler_apiKeys e.accepted desk.db e.header e.call, ?_⟩
    dsimp only
    split
    · exact .inr ⟨apiKey, hkey, rfl⟩
    · exact .inl rfl

/-- A call that is answered well is saved. -/
theorem desk_answered {desk desk' : IngestDesk} {e : IngestEvent} {apiKey : ApiKey}
    (hkey : resolveAsync chars desk.db.tables e.header = .ok apiKey)
    (hok : (unaryServerHandler chars tryParse e.env e.accepted desk.db e.header e.call).1.succeeded = true)
    (h : desk.step chars tryParse e = some desk') : desk'.saved = desk.saved ++ [⟨apiKey.projectId, e.env, e.call⟩] := by
  simp only [IngestDesk.step, hkey] at h
  cases h
  exact if_pos hok

/-- Another call than a handshake of the project, and no loop ends well. -/
theorem connectInv_call {s : Connecting} (hi : ConnectInv chars nodes before projectId s) {e : IngestEvent} {desk : IngestDesk}
    (h : s.desk.step chars tryParse e = some desk)
    (hown : ∀ request apiKey, e.call = .handshake request → resolveAsync chars s.desk.db.tables e.header = .ok apiKey →
      apiKey.projectId = projectId → ∃ i, HandshakeOf nodes projectId i ⟨apiKey.projectId, e.env, e.call⟩) :
    ConnectInv chars nodes before projectId { s with desk := desk } := by
  obtain ⟨hkeys, hsaved⟩ := desk_step h
  refine { registered := registered_step hi.registered h, keys := hkeys.trans hi.keys, backsOff := hi.backsOff,
           own := ?_, heard := fun i hphase => ?_ }
  · intro c hc hproject request hcall
    rcases hsaved with hsaved | ⟨apiKey, hkey, hsaved⟩
    · rw [hsaved] at hc
      exact hi.own c hc hproject request hcall
    · rw [hsaved] at hc
      rcases List.mem_append.1 hc with hc | hc
      · exact hi.own c hc hproject request hcall
      · obtain rfl := List.mem_singleton.1 hc
        exact hown request apiKey hcall hkey hproject
  · obtain ⟨c, hc, hof⟩ := hi.heard i hphase
    refine ⟨c, ?_, hof⟩
    rcases hsaved with hsaved | ⟨apiKey, -, hsaved⟩
    · rw [hsaved]
      exact hc
    · rw [hsaved]
      exact List.mem_append_left _ hc

theorem setLoop_loops (s : Connecting) (i j : Nat) (loop : HandshakeLoop) :
    (s.setLoop i loop).loops j = if j = i then loop else s.loops j := Function.update_apply ..

theorem connectInv_loop {s : Connecting} (hi : ConnectInv chars nodes before projectId s) {i : Nat} {loop : HandshakeLoop}
    (hloop : BacksOff loop) (hheard : loop.phase = .connected → ∃ c ∈ s.desk.saved, HandshakeOf nodes projectId i c) :
    ConnectInv chars nodes before projectId (s.setLoop i loop) := by
  refine { registered := hi.registered, keys := hi.keys, backsOff := fun j => ?_, own := hi.own, heard := fun j => ?_ }
  · rw [setLoop_loops]
    split
    · exact hloop
    · exact hi.backsOff j
  · rw [setLoop_loops]
    split
    · rename_i hj
      exact hj ▸ hheard
    · exact hi.heard j

theorem attempted_connected {loop : HandshakeLoop} {outcome : SendOutcome} (h : (loop.attempted outcome).phase = .connected) :
    outcome = .delivered := by
  cases outcome with
  | delivered => rfl
  | failed | cancelled => cases h

theorem connectInv_step (hkeys : ∀ i, ∃ apiKey, resolveAsync chars before.tables (nodes i).header = .ok apiKey ∧
      apiKey.projectId = projectId) {s s' : Connecting} {e : ConnectingEvent} (hi : ConnectInv chars nodes before projectId s)
    (hspares : e.Spares chars before projectId) (h : s.step chars tryParse nodes e = some s') :
    ConnectInv chars nodes before projectId s' := by
  cases e with
  | handshake i utcNow env accepted outcome =>
    simp only [Connecting.step] at h
    split at h
    · cases h
    · rename_i hgo
      obtain ⟨mid, hcall, rfl⟩ := Option.map_eq_some_iff.1 h
      obtain ⟨desk, hdesk, rfl⟩ := Option.map_eq_some_iff.1 hcall
      obtain ⟨apiKey, hkey, hproject⟩ := hkeys i
      have hresolves : resolveAsync chars s.desk.db.tables (nodes i).header = .ok apiKey := (resolveAsync_congr hi.keys).trans hkey
      obtain ⟨hphase, hanswer⟩ := not_or.1 hgo
      have hmid := connectInv_call hi hdesk fun request apiKey' _ hkey' hproject' => ⟨i, hproject', utcNow, rfl⟩
      refine connectInv_loop hmid (backsOff_attempted (hi.backsOff i) (not_not.1 hphase) outcome) fun hconnected => ?_
      have hdelivered := attempted_connected hconnected
      have hsaved := desk_answered hresolves (Bool.eq_true_of_not_eq_false fun hfailed => hanswer ⟨hdelivered, hfailed⟩) hdesk
      refine ⟨⟨apiKey.projectId, env, .handshake ((nodes i).handshake utcNow)⟩, ?_, hproject, utcNow, rfl⟩
      dsimp only
      rw [hsaved]
      exact List.mem_append_right _ (List.mem_singleton.2 rfl)
  | handshakeFails i cancelled =>
    simp only [Connecting.step] at h
    split at h <;> cases h
    rename_i hphase
    refine connectInv_loop hi (backsOff_attempted (hi.backsOff i) (not_not.1 hphase) _) fun hconnected => ?_
    have hdelivered := attempted_connected hconnected
    cases cancelled <;> cases hdelivered
  | delayEnds i =>
    simp only [Connecting.step] at h
    split at h <;> cases h
    rename_i hphase
    exact connectInv_loop hi (backsOff_again (hi.backsOff i) (not_not.1 hphase)) fun hconnected => by cases hconnected
  | stop i =>
    cases h
    exact connectInv_loop hi { hi.backsOff i with } (hi.heard i)
  | leave i =>
    simp only [Connecting.step] at h
    split at h <;> cases h
    exact connectInv_loop hi ⟨(hi.backsOff i).waits, fun h => (by cases h), fun h => (by cases h)⟩ fun h => by cases h
  | heartbeat i utcNow isLeader env accepted =>
    obtain ⟨desk, hdesk, rfl⟩ := Option.map_eq_some_iff.1 h
    exact connectInv_call hi hdesk fun request apiKey hcall => by cases hcall
  | ingest e =>
    obtain ⟨desk, hdesk, rfl⟩ := Option.map_eq_some_iff.1 h
    refine connectInv_call hi hdesk fun request apiKey hcall hkey hproject => ?_
    exact absurd hproject (hspares request apiKey hcall ((resolveAsync_congr hi.keys).symm.trans hkey))

/-- A job on the dashboard with the settings of a descriptor. -/
def jobJson (job : JobDescriptor) (firstSeen lastSeen : DateTime) : JobJson :=
  ⟨(toDefinition job).name, (toDefinition job).cron, (toDefinition job).maxConcurrency, (toDefinition job).timeoutSeconds,
    (toDefinition job).allowManualTrigger, (toDefinition job).enabled, firstSeen, lastSeen⟩

theorem listings_own {s : Connecting} (hi : ConnectInv chars nodes before projectId s) {name : Text}
    {d : JobDefinitionMessage × DateTime} (hd : d ∈ listings projectId name s.desk.saved) :
    ∃ i, ∃ job ∈ (nodes i).jobs, d.1 = toDefinition job ∧ job.name.toList = name := by
  obtain ⟨c, hc, hd⟩ := List.mem_flatMap.1 hd
  cases hcall : c.call with
  | handshake request =>
    simp only [SavedCall.listings, hcall] at hd
    split at hd
    · rename_i hproject
      obtain ⟨i, -, utcNow, hown⟩ := hi.own c hc hproject request hcall
      rw [hcall] at hown
      cases hown
      obtain ⟨definition, hdefinition, rfl⟩ := List.mem_map.1 hd
      obtain ⟨hmem, hname⟩ := List.mem_filter.1 hdefinition
      obtain ⟨job, hjob, rfl⟩ := List.mem_map.1 hmem
      exact ⟨i, job, hjob, rfl, of_decide_eq_true hname⟩
    · cases hd
  | sendHeartbeat | sendRuns | sendLogs =>
    simp only [SavedCall.listings, hcall] at hd
    cases hd

theorem registered_some {l : List (JobDefinitionMessage × DateTime)} {json : JobJson} (h : Dashboard.registered l = some json) :
    ∃ first ∈ l, ∃ last ∈ l, json = listed (some (listed none first)) last := by
  unfold Dashboard.registered at h
  split at h
  · rename_i first last hfirst hlast
    cases h
    exact ⟨first, List.mem_of_head? hfirst, last, List.mem_of_getLast? hlast, rfl⟩
  · cases h

theorem registered_ne_none {l : List (JobDefinitionMessage × DateTime)} (h : l ≠ []) : ∃ json, Dashboard.registered l = some json := by
  obtain ⟨first, rest, rfl⟩ := List.exists_cons_of_ne_nil h
  exact ⟨_, by rw [Dashboard.registered, List.head?_cons, List.getLast?_eq_some_getLast h]⟩

/-- A node that was seen is listed under its id. -/
theorem known_nodeId {nodeId : Text} {l : List Sighting} (h : l ≠ []) : ∃ node, known chars nodeId l = some node ∧ node.nodeId = nodeId := by
  have hkeeps : ∀ (l : List Sighting) (node : NodeJson), node.nodeId = nodeId →
      ∃ node', l.foldl (fun node x => some (seen chars nodeId node x)) (some node) = some node' ∧ node'.nodeId = nodeId := by
    intro l
    induction l with
    | nil => exact fun node hnode => ⟨node, rfl, hnode⟩
    | cons x l ih =>
      intro node hnode
      refine ih (seen chars nodeId (some node) x) ?_
      cases x <;> exact hnode
  obtain ⟨x, l, rfl⟩ := List.exists_cons_of_ne_nil h
  refine hkeeps l (seen chars nodeId none x) ?_
  cases x <;> rfl

/-- In every run of any number of nodes of a project that agree on their jobs,
with handshakes, heartbeats and other calls in any order: the delays between the
attempts of a node are 2, 4, 8, 16 and then 30 seconds; a node whose handshake
was answered is listed by the dashboard, and each of its jobs with the settings
it has; and every job listed is one of a node's. -/
theorem handshakes_register_jobs (chars : CharTable) (tryParse : Text → Option Guid) (collation : OrderBy Text)
    (nodes : Nat → ReporterNode) (before : IngestDb) (hjobs : before.tables.jobDefinitions = [])
    (hnodes : before.tables.nodeHeartbeats = []) (projectId : Guid)
    (hkeys : ∀ i, ∃ apiKey, resolveAsync chars before.tables (nodes i).header = .ok apiKey ∧ apiKey.projectId = projectId)
    (hagree : ∀ i j, ∀ job ∈ (nodes i).jobs, ∀ job' ∈ (nodes j).jobs, job.name = job'.name → toDefinition job = toDefinition job')
    (es : List ConnectingEvent) (s : Connecting) (hspares : ∀ e ∈ es, e.Spares chars before projectId)
    (hrun : exec (Connecting.step chars tryParse nodes) (.initial before) es = some s) :
    (∀ i, (s.loops i).waits = (List.range (s.loops i).waits.length).map backoff) ∧
    (∀ i, (s.loops i).phase = .connected →
      (∃ node ∈ getNodesAsync s.desk.db.tables projectId, node.nodeId = (nodes i).nodeId) ∧
      ∀ job ∈ (nodes i).jobs, ∃ firstSeen lastSeen, jobJson job firstSeen lastSeen ∈ getJobsAsync collation s.desk.db.tables projectId) ∧
    (∀ json ∈ getJobsAsync collation s.desk.db.tables projectId,
      ∃ i, ∃ job ∈ (nodes i).jobs, ∃ firstSeen lastSeen, json = jobJson job firstSeen lastSeen) := by
  have hi : ConnectInv chars nodes before projectId s := by
    refine exec_inv_along (fun _ e => e.Spares chars before projectId) (ConnectInv chars nodes before projectId)
      (fun _ _ _ hi hspares h => connectInv_step hkeys hi hspares h) ?_ (along_of_forall hspares) hrun
    refine { registered := ⟨fun _ _ => ?_, fun _ _ => ?_⟩, keys := rfl, backsOff := fun _ => backsOff_start,
             own := fun c hc => (by cases hc), heard := fun i hphase => (by cases hphase) }
    · rw [Connecting.initial, jobOf, hjobs]
      rfl
    · rw [Connecting.initial, nodeOf, hnodes]
      rfl
  -- What is listed under a name has the settings every node of the project has under it.
  have hsettings : ∀ {name : Text} {json : JobJson}, Dashboard.registered (listings projectId name s.desk.saved) = some json →
      ∃ i, ∃ job ∈ (nodes i).jobs, job.name.toList = name ∧ ∃ firstSeen lastSeen, json = jobJson job firstSeen lastSeen := by
    intro name json hjson
    obtain ⟨first, hfirst, last, hlast, rfl⟩ := registered_some hjson
    obtain ⟨j, job', hjob', hdef', hname'⟩ := listings_own hi hfirst
    obtain ⟨i, job, hjob, hdef, hname⟩ := listings_own hi hlast
    have hsame : first.1.name = (toDefinition job).name := by
      rw [hdef']
      exact hname'.trans hname.symm
    refine ⟨i, job, hjob, hname, first.2, last.2, ?_⟩
    simp only [listed, jobJson, Option.map_some, Option.getD_some, Option.map_none, Option.getD_none, hsame, hdef]
  refine ⟨fun i => (hi.backsOff i).waits, fun i hconnected => ⟨?_, fun job hjob => ?_⟩, fun json hjson => ?_⟩
  · obtain ⟨c, hc, hproject, utcNow, hcall⟩ := hi.heard i hconnected
    have hsighting : Sighting.handshake (stamp (c.env.clock 0) (some (fromDateTimeOffset utcNow))) "net10.0".toList
        (nodes i).clientVersion (c.env.clock 0) ∈ sightings projectId (nodes i).nodeId s.desk.saved := by
      refine List.mem_flatMap.2 ⟨c, hc, ?_⟩
      simp [SavedCall.sightings, hcall, hproject, ReporterNode.handshake]
    obtain ⟨node, hnode, hid⟩ := @known_nodeId chars (nodes i).nodeId _ (List.ne_nil_of_mem hsighting)
    refine ⟨node, (mem_getNodesAsync s.desk.db projectId node).2 ⟨(nodes i).nodeId, ?_⟩, hid⟩
    rw [hi.registered.nodes, hnode]
  · obtain ⟨c, hc, hproject, utcNow, hcall⟩ := hi.heard i hconnected
    have hlisting : (toDefinition job, c.env.clock 0) ∈ listings projectId job.name.toList s.desk.saved := by
      refine List.mem_flatMap.2 ⟨c, hc, ?_⟩
      simp only [SavedCall.listings, hcall, hproject, if_true, ReporterNode.handshake]
      exact List.mem_map.2 ⟨toDefinition job, List.mem_filter.2 ⟨List.mem_map_of_mem hjob, decide_eq_true rfl⟩, rfl⟩
    obtain ⟨json, hjson⟩ := registered_ne_none (List.ne_nil_of_mem hlisting)
    obtain ⟨j, job', hjob', hname, firstSeen, lastSeen, rfl⟩ := hsettings hjson
    have hsame : toDefinition job = toDefinition job' := hagree i j job hjob job' hjob' (String.toList_inj.1 hname.symm)
    refine ⟨firstSeen, lastSeen, (mem_getJobsAsync collation s.desk.db projectId _).2 ⟨job.name.toList, ?_⟩⟩
    rw [hi.registered.jobs, hjson, jobJson, jobJson, hsame]
  · obtain ⟨name, hname⟩ := (mem_getJobsAsync collation s.desk.db projectId json).1 hjson
    rw [hi.registered.jobs] at hname
    obtain ⟨i, job, hjob, -, hsame⟩ := hsettings hname
    exact ⟨i, job, hjob, hsame⟩

end Run

/-! ## Two nodes -/

def mailDescriptor : JobDescriptor := ⟨"mail", "* * * * *", "Mailer", ⟨"Send", true, []⟩, intMaxValue, some 600000000, true, true⟩

def mailNodes (i : Nat) : ReporterNode := ⟨some "k1".toList, (if i = 0 then "n0" else "n1").toList, "1.0".toList, [mailDescriptor]⟩

def otherEnv : IngestAmbient := ⟨fun _ => 20, fun _ => 79, fun _ => by decide⟩

/-- The answer to node 0 is lost, the call of node 1 fails; both try again. -/
def bothConnect : List ConnectingEvent :=
  [.handshake 0 100 tenantEnv true .failed, .handshakeFails 1 false, .heartbeat 0 110 true tenantEnv true, .delayEnds 1,
    .handshake 1 120 otherEnv true .delivered, .delayEnds 0, .handshake 0 130 tenantEnv true .delivered]

def runBothConnect : Option Connecting := exec (Connecting.step ascii tryParseHyphenated mailNodes) (.initial twoTenants) bothConnect

theorem bothConnect_spares : ∀ e ∈ bothConnect, e.Spares ascii twoTenants 1 := by
  intro e he
  fin_cases he <;> exact trivial

theorem handshakes_register_jobs_bothConnect :
    ∃ s, runBothConnect = some s ∧ (s.loops 0).waits = [2] ∧ ∃ firstSeen lastSeen,
      ⟨"mail".toList, "* * * * *".toList, 0, 60, true, true, firstSeen, lastSeen⟩ ∈ getJobsAsync (.linear Text) s.desk.db.tables 1 := by
  have hsome : runBothConnect.isSome = true := by decide +kernel
  have hall : runBothConnect.all (fun s => (s.loops 0).phase = .connected ∧ (s.loops 0).waits.length = 1) = true := by
    decide +kernel
  obtain ⟨s, hs⟩ := Option.isSome_iff_exists.1 hsome
  rw [hs] at hall
  obtain ⟨hphase, hlength⟩ := of_decide_eq_true hall
  obtain ⟨hwaits, hconnected, -⟩ := handshakes_register_jobs ascii tryParseHyphenated (.linear Text) mailNodes twoTenants rfl rfl 1
    (fun _ => ⟨keyOfOne, resolveAsync_k1, rfl⟩)
    (fun i j job hjob job' hjob' _ => by rw [List.mem_singleton.1 hjob, List.mem_singleton.1 hjob']) bothConnect s
    bothConnect_spares hs
  refine ⟨s, hs, ?_, (hconnected 0 hphase).2 mailDescriptor (List.mem_singleton.2 rfl)⟩
  rw [hwaits 0, hlength]
  rfl

end DuckRun.Reporting
