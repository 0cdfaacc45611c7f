import DuckRun.Dashboard.ConsoleLines
import DuckRun.Lib.Machine
import DuckRun.Lib.SecondaryKeys
/-!
# Nodes and job definitions of a project

`Handshake` and `SendHeartbeat` upsert by project and name: the endpoints of the
project show what its saved calls say, in their order, however calls of other
projects come between. A job definition has the settings of the last handshake
that listed it and the times of the first and the last one; a node is taken for
a follower after its handshake until a heartbeat says otherwise.
-/

namespace DuckRun.Dashboard

open DuckRun.Lib

/-! ## The endpoints -/

structure JobJson where
  name : Text
  cron : Text
  maxConcurrency : Int
  timeoutSeconds : Int
  allowManualTrigger : Bool
  enabled : Bool
  firstSeen : DateTime
  lastSeen : DateTime
  deriving DecidableEq, Repr

structure NodeJson where
  nodeId : Text
  runtime : Text
  clientVersion : Text
  startedAt : DateTime
  lastSeen : DateTime
  isLeader : Bool
  deriving DecidableEq, Repr

def JobDefinition.json (j : JobDefinition) : JobJson :=
  ⟨j.name, j.cron, j.maxConcurrency, j.timeoutSeconds, j.allowManualTrigger, j.enabled, j.firstSeen, j.lastSeen⟩

def NodeHeartbeat.json (h : NodeHeartbeat) : NodeJson :=
  ⟨h.nodeId, h.runtime, h.clientVersion, h.startedAt, h.lastSeen, h.isLeader⟩

/-- `GetJobsAsync`; the database orders texts by its collation. -/
def getJobsAsync (collation : OrderBy Text) (t : IngestTables) (id : Guid) : List JobJson :=
  (collation.sort JobDefinition.name (t.jobDefinitions.filter fun j => j.projectId = id)).map JobDefinition.json

/-- `GetNodesAsync`. -/
def getNodesAsync (t : IngestTables) (id : Guid) : List NodeJson :=
  ((OrderBy.descending Int).sort NodeHeartbeat.lastSeen (t.nodeHeartbeats.filter fun n => n.projectId = id)).map NodeHeartbeat.json

/-! ## The calls that were saved -/

structure SavedCall where
  projectId : Guid
  env : IngestAmbient
  call : Call

structure IngestDesk where
  db : IngestDb
  /-- The calls saved, in order. -/
  saved : List SavedCall

structure IngestEvent where
  env : IngestAmbient
  accepted : Bool
  header : Option Text
  call : Call

def IngestDesk.step (chars : CharTable) (tryParse : Text → Option Guid) (s : IngestDesk) (e : IngestEvent) : Option IngestDesk :=
  match resolveAsync chars s.db.tables e.header with
  | .error _ => some s
  | .ok apiKey =>
    let (reply, db) := unaryServerHandler chars tryParse e.env e.accepted s.db e.header e.call
    some ⟨db, if reply.succeeded then s.saved ++ [⟨apiKey.projectId, e.env, e.call⟩] else s.saved⟩

/-! ## What they say -/

/-- The definitions of a job in a call, and when they came. -/
def SavedCall.listings (projectId : Guid) (name : Text) (c : SavedCall) : List (JobDefinitionMessage × DateTime) :=
  match c.call with
  | .handshake request =>
    if c.projectId = projectId then (request.jobs.filter fun d => d.name = name).map fun d => (d, c.env.clock 0) else []
  | _ => []

/-- A job listed again has the settings of now and keeps its first time. -/
def listed (job : Option JobJson) (d : JobDefinitionMessage × DateTime) : JobJson :=
  ⟨(job.map JobJson.name).getD d.1.name, d.1.cron, d.1.maxConcurrency, d.1.timeoutSeconds, d.1.allowManualTrigger, d.1.enabled,
    (job.map JobJson.firstSeen).getD d.2, d.2⟩

/-- A job by its listings: the settings and time of the last, and the time of the first. -/
def registered (listings : List (JobDefinitionMessage × DateTime)) : Option JobJson :=
  match listings.head?, listings.getLast? with
  | some first, some last => some (listed (some (listed none first)) last)
  | _, _ => none

inductive Sighting where
  | handshake (startedAt : DateTime) (runtime clientVersion : Text) (now : DateTime)
  | heartbeat (isLeader : Bool) (seen : DateTime)

/-- `t?.ToDateTime() ?? now`, for a call that was saved. -/
def stamp (now : DateTime) (t : Option Timestamp) : DateTime :=
  match toDateTime? t with
  | .ok t => t.getD now
  | .error _ => now

def SavedCall.sightings (projectId : Guid) (nodeId : Text) (c : SavedCall) : List Sighting :=
  match c.call with
  | .handshake request =>
    if c.projectId = projectId ∧ request.nodeId = nodeId then
      [.handshake (stamp (c.env.clock 0) request.startedAt) request.runtime request.clientVersion (c.env.clock 0)]
    else []
  | .sendHeartbeat request =>
    if c.projectId = projectId ∧ request.nodeId = nodeId then
      [.heartbeat request.isLeader (stamp (c.env.clock 0) request.at_)]
    else []
  | _ => []

/-- A node after a sighting; a blank text of a handshake keeps the known one. -/
def seen (chars : CharTable) (nodeId : Text) (node : Option NodeJson) : Sighting → NodeJson
  | .handshake startedAt runtime clientVersion now =>
    { nodeId := (node.map NodeJson.nodeId).getD nodeId
      runtime := if isNullOrWhiteSpace chars (some runtime) then (node.map NodeJson.runtime).getD runtime else runtime
      clientVersion :=
        if isNullOrWhiteSpace chars (some clientVersion) then (node.map NodeJson.clientVersion).getD clientVersion
        else clientVersion
      startedAt := startedAt
      lastSeen := now
      isLeader := false }
  | .heartbeat isLeader seen =>
    { nodeId := (node.map NodeJson.nodeId).getD nodeId
      runtime := (node.map NodeJson.runtime).getD []
      clientVersion := (node.map NodeJson.clientVersion).getD []
      startedAt := (node.map NodeJson.startedAt).getD seen
      lastSeen := seen
      isLeader := isLeader }

/-! ## Upserts by project and name -/

def jobKey (j : JobDefinition) : Guid × Text := (j.projectId, j.name)

def nodeKey (h : NodeHeartbeat) : Guid × Text := (h.projectId, h.nodeId)

section Upserts
variable (chars : CharTable) (env : IngestAmbient) (projectId : Guid)

def definitionUpsert (now : DateTime) (d : JobDefinitionMessage × Nat) : Upsert JobDefinition (Guid × Text) where
  key := (projectId, d.1.name)
  new :=
    { id := env.newGuid (d.2 + 1), projectId := projectId, name := d.1.name, cron := d.1.cron,
      maxConcurrency := d.1.maxConcurrency, timeoutSeconds := d.1.timeoutSeconds,
      allowManualTrigger := d.1.allowManualTrigger, enabled := d.1.enabled, firstSeen := now, lastSeen := now }
  assign j :=
    { j with
      cron := d.1.cron
      maxConcurrency := d.1.maxConcurrency
      timeoutSeconds := d.1.timeoutSeconds
      allowManualTrigger := d.1.allowManualTrigger
      enabled := d.1.enabled
      lastSeen := now }

def heartbeatUpsert (nodeId : Text) (runtime clientVersion : Option Text) (startedAt : Option DateTime) (isLeader : Bool)
    (lastSeen : DateTime) : Upsert NodeHeartbeat (Guid × Text) where
  key := (projectId, nodeId)
  new :=
    { id := env.newGuid 0, projectId := projectId, nodeId := nodeId, startedAt := startedAt.getD lastSeen,
      lastSeen := lastSeen, isLeader := isLeader, runtime := runtime.getD [], clientVersion := clientVersion.getD [] }
  assign h :=
    { h with
      lastSeen := lastSeen
      isLeader := isLeader
      runtime := if isNullOrWhiteSpace chars runtime then h.runtime else runtime.getD []
      clientVersion := if isNullOrWhiteSpace chars clientVersion then h.clientVersion else clientVersion.getD []
      startedAt := startedAt.getD h.startedAt }

end Upserts

section Calls
variable {chars : CharTable} {tryParse : Text → Option Guid} {env : IngestAmbient} {projectId : Guid}

theorem definitionUpsert_fits (now : DateTime) (d : JobDefinitionMessage × Nat) :
    (definitionUpsert env projectId now d).Fits JobDefinition.id jobKey := ⟨rfl, fun _ => rfl, fun _ => rfl⟩

theorem heartbeatUpsert_fits (nodeId : Text) (runtime clientVersion : Option Text) (startedAt : Option DateTime)
    (isLeader : Bool) (lastSeen : DateTime) :
    (heartbeatUpsert chars env projectId nodeId runtime clientVersion startedAt isLeader lastSeen).Fits NodeHeartbeat.id nodeKey :=
  ⟨rfl, fun _ => rfl, fun _ => rfl⟩

theorem upsertJobDefinitionAsync_eq (now : DateTime) (set : EntitySet JobDefinition) (d : JobDefinitionMessage × Nat) :
    upsertJobDefinitionAsync env projectId now set d =
      set.upsert JobDefinition.id jobKey (definitionUpsert env projectId now d) := by
  obtain ⟨definition, index⟩ := d
  have hquery : (fun j : JobDefinition => decide (j.projectId = projectId) && decide (j.name = definition.name)) =
      fun j => decide (jobKey j = (projectId, definition.name)) := by
    funext j
    simp [jobKey, Bool.decide_and]
  unfold upsertJobDefinitionAsync EntitySet.upsert
  simp only [hquery]
  refine bind_congr fun found => ?_
  cases found <;> rfl

theorem upsertHeartbeatAsync_eq (set : EntitySet NodeHeartbeat) (nodeId : Text) (runtime clientVersion : Option Text)
    (startedAt : Option DateTime) (isLeader : Bool) (lastSeen : DateTime) :
    upsertHeartbeatAsync chars env set projectId nodeId runtime clientVersion startedAt isLeader lastSeen =
      set.upsert NodeHeartbeat.id nodeKey
        (heartbeatUpsert chars env projectId nodeId runtime clientVersion startedAt isLeader lastSeen) := by
  have hquery : (fun h : NodeHeartbeat => decide (h.projectId = projectId) && decide (h.nodeId = nodeId)) =
      fun h => decide (nodeKey h = (projectId, nodeId)) := by
    funext h
    simp [nodeKey, Bool.decide_and]
  unfold upsertHeartbeatAsync EntitySet.upsert
  simp only [hquery]
  refine bind_congr fun found => ?_
  cases found <;> rfl

/-! ## Rows by project and name -/

def jobOf (t : IngestTables) (k : Guid × Text) : Option JobDefinition := t.jobDefinitions.find? fun j => jobKey j = k

def nodeOf (t : IngestTables) (k : Guid × Text) : Option NodeHeartbeat := t.nodeHeartbeats.find? fun h => nodeKey h = k

/-- The upserts of a call. -/
def Call.jobUpserts (env : IngestAmbient) (projectId : Guid) : Call → List (Upsert JobDefinition (Guid × Text))
  | .handshake request => request.jobs.zipIdx.map (definitionUpsert env projectId (env.clock 0))
  | _ => []

def Call.nodeUpserts (chars : CharTable) (env : IngestAmbient) (projectId : Guid) : Call → List (Upsert NodeHeartbeat (Guid × Text))
  | .handshake request =>
    [heartbeatUpsert chars env projectId request.nodeId (some request.runtime) (some request.clientVersion)
      (some (stamp (env.clock 0) request.startedAt)) false (env.clock 0)]
  | .sendHeartbeat request =>
    [heartbeatUpsert chars env projectId request.nodeId none none none request.isLeader (stamp (env.clock 0) request.at_)]
  | _ => []

theorem jobUpserts_fit (call : Call) : ∀ u ∈ call.jobUpserts env projectId, u.Fits JobDefinition.id jobKey := by
  intro u hu
  cases call with
  | handshake request =>
    obtain ⟨d, -, rfl⟩ := List.mem_map.1 hu
    exact definitionUpsert_fits _ _
  | sendHeartbeat | sendRuns | sendLogs => cases hu

theorem nodeUpserts_fit (call : Call) : ∀ u ∈ call.nodeUpserts chars env projectId, u.Fits NodeHeartbeat.id nodeKey := by
  intro u hu
  cases call with
  | handshake | sendHeartbeat =>
    rw [List.mem_singleton.1 hu]
    exact heartbeatUpsert_fits ..
  | sendRuns | sendLogs => cases hu

theorem keysOk_jobs {t : IngestTables} (h : t.keysOk = true) : (t.jobDefinitions.map JobDefinition.id).Nodup ∧
    (t.jobDefinitions.map jobKey).Nodup := by
  simp only [IngestTables.keysOk, Bool.and_eq_true, decide_eq_true_eq] at h
  exact ⟨h.1.1.1.1.2, h.1.1.1.2⟩

theorem keysOk_nodes {t : IngestTables} (h : t.keysOk = true) : (t.nodeHeartbeats.map NodeHeartbeat.id).Nodup ∧
    (t.nodeHeartbeats.map nodeKey).Nodup := by
  simp only [IngestTables.keysOk, Bool.and_eq_true, decide_eq_true_eq] at h
  exact ⟨h.1.1.1.1.1.1.2, h.1.1.1.1.1.2⟩

/-- A batch of upserts that is saved is the batch on the map of rows. -/
theorem saved_upserts {α : Type} {id : α → Guid} {key : α → Guid × Text} {rows : List α} {us : List (Upsert α (Guid × Text))}
    {set : EntitySet α} (hu : ∀ u ∈ us, u.Fits id key) (hids : (set.saved.map id).Nodup) (hkeys : (set.saved.map key).Nodup)
    (h : us.foldlM (EntitySet.upsert id key) (.open_ rows) = .ok set) :
    (fun k => set.saved.find? fun r => key r = k) = us.foldl Upsert.apply fun k => rows.find? fun r => key r = k := by
  have hfind := (find_upserts hu (aligned_open rows) ⟨hids, hkeys⟩ h).2
  have hopen : (EntitySet.open_ rows).find key = fun k => rows.find? fun r => key r = k := by
    funext k
    rw [EntitySet.find, EntitySet.saved_open]
  rw [hopen] at hfind
  exact hfind

theorem stamp_ok {now : DateTime} {t : Option Timestamp} {v : Option DateTime} (h : toDateTime? t = .ok v) :
    stamp now t = v.getD now := by
  rw [stamp, h]

/-- What a call that is saved does to both tables. -/
theorem run_upserts {t t' : IngestTables} {call : Call} {reply : Reply} (hkeys : t'.keysOk = true)
    (h : run chars tryParse env projectId t call = .ok (t', reply)) :
    jobOf t' = (call.jobUpserts env projectId).foldl Upsert.apply (jobOf t) ∧
      nodeOf t' = (call.nodeUpserts chars env projectId).foldl Upsert.apply (nodeOf t) := by
  cases call with
  | handshake request =>
    simp only [run, handshake] at h
    obtain ⟨startedAt, hstarted, h⟩ := except_bind_ok.1 h
    obtain ⟨heartbeats, hbeat, h⟩ := except_bind_ok.1 h
    obtain ⟨definitions, hdefs, h⟩ := except_bind_ok.1 h
    cases h
    obtain ⟨hjobIds, hjobKeys⟩ := keysOk_jobs hkeys
    obtain ⟨hnodeIds, hnodeKeys⟩ := keysOk_nodes hkeys
    rw [upsertHeartbeatAsync_eq, ← stamp_ok hstarted] at hbeat
    have hone : [heartbeatUpsert chars env projectId request.nodeId (some request.runtime) (some request.clientVersion)
        (some (stamp (env.clock 0) request.startedAt)) false (env.clock 0)].foldlM (EntitySet.upsert NodeHeartbeat.id nodeKey)
          (.open_ t.nodeHeartbeats) = .ok heartbeats := by
      rw [List.foldlM_cons, hbeat]
      rfl
    have hall : (request.jobs.zipIdx.map (definitionUpsert env projectId (env.clock 0))).foldlM
        (EntitySet.upsert JobDefinition.id jobKey) (.open_ t.jobDefinitions) = .ok definitions := by
      rw [List.foldlM_map, ← hdefs]
      congr 1
      funext set d
      exact (upsertJobDefinitionAsync_eq _ set d).symm
    exact ⟨saved_upserts (jobUpserts_fit (.handshake request)) hjobIds hjobKeys hall,
      saved_upserts (nodeUpserts_fit (.handshake request)) hnodeIds hnodeKeys hone⟩
  | sendHeartbeat request =>
    simp only [run, sendHeartbeat] at h
    obtain ⟨at_, hat, h⟩ := except_bind_ok.1 h
    obtain ⟨heartbeats, hbeat, h⟩ := except_bind_ok.1 h
    cases h
    obtain ⟨hnodeIds, hnodeKeys⟩ := keysOk_nodes hkeys
    rw [upsertHeartbeatAsync_eq, ← stamp_ok hat] at hbeat
    have hone : [heartbeatUpsert chars env projectId request.nodeId none none none request.isLeader
        (stamp (env.clock 0) request.at_)].foldlM (EntitySet.upsert NodeHeartbeat.id nodeKey) (.open_ t.nodeHeartbeats) =
          .ok heartbeats := by
      rw [List.foldlM_cons, hbeat]
      rfl
    exact ⟨rfl, saved_upserts (nodeUpserts_fit (.sendHeartbeat request)) hnodeIds hnodeKeys hone⟩
  | sendRuns runs =>
    obtain ⟨_, -, rfl⟩ := sendRuns_saved h
    exact ⟨rfl, rfl⟩
  | sendLogs logs =>
    simp only [run, sendLogs] at h
    obtain ⟨_, -, h⟩ := except_bind_ok.1 h
    cases h
    exact ⟨rfl, rfl⟩

/-! ## From rows to what the calls say -/

/-- A call's upserts of one job, as its listings. -/
theorem jobUpserts_listings {rows : Guid × Text → Option JobDefinition} (call : Call) (project : Guid) (name : Text) :
    ((call.jobUpserts env projectId).foldl Upsert.apply rows (project, name)).map JobDefinition.json =
      (SavedCall.listings project name ⟨projectId, env, call⟩).foldl (fun job d => some (listed job d))
        ((rows (project, name)).map JobDefinition.json) := by
  cases call with
  | handshake request =>
    simp only [Call.jobUpserts, SavedCall.listings]
    generalize hdefs : request.jobs.zipIdx = defs
    have hjobs : request.jobs = defs.map Prod.fst := by rw [← hdefs, List.zipIdx_map_fst]
    rw [hjobs]
    clear hjobs hdefs
    induction defs generalizing rows with
    | nil =>
      split <;> rfl
    | cons d defs ih =>
      rw [List.map_cons, List.foldl_cons, ih, List.map_cons, List.filter_cons]
      by_cases hproject : projectId = project
      · subst hproject
        rw [if_pos rfl, if_pos rfl]
        by_cases hname : d.1.name = name
        · subst hname
          rw [if_pos (by simp), List.map_cons, List.foldl_cons]
          congr 1
          have hkey : (definitionUpsert env projectId (env.clock 0) d).key = (projectId, d.1.name) := rfl
          rw [Upsert.apply, hkey, Function.update_self]
          cases rows (projectId, d.1.name) <;> rfl
        · have hkey : (projectId, name) ≠ (definitionUpsert env projectId (env.clock 0) d).key := by
            simp [definitionUpsert, Ne.symm hname]
          rw [if_neg (by simpa using hname), Upsert.apply, Function.update_of_ne hkey]
      · have hkey : (project, name) ≠ (definitionUpsert env projectId (env.clock 0) d).key := by
          simp [definitionUpsert, Ne.symm hproject]
        rw [if_neg hproject, if_neg hproject, Upsert.apply, Function.update_of_ne hkey]
  | sendHeartbeat | sendRuns | sendLogs => rfl

/-- A handshake or heartbeat upserts one node. -/
theorem heartbeatUpsert_apply {rows : Guid × Text → Option NodeHeartbeat} {nodeId : Text} {runtime clientVersion : Option Text}
    {startedAt : Option DateTime} {isLeader : Bool} {lastSeen : DateTime} (sighting : Sighting) (project : Guid) (node : Text)
    (hseen : ∀ row : Option NodeHeartbeat, (row.elim (heartbeatUpsert chars env projectId nodeId runtime clientVersion startedAt
      isLeader lastSeen).new (heartbeatUpsert chars env projectId nodeId runtime clientVersion startedAt isLeader lastSeen).assign).json =
        seen chars nodeId (row.map NodeHeartbeat.json) sighting) :
    (Upsert.apply rows (heartbeatUpsert chars env projectId nodeId runtime clientVersion startedAt isLeader lastSeen)
        (project, node)).map NodeHeartbeat.json =
      (if projectId = project ∧ nodeId = node then [sighting] else []).foldl (fun n x => some (seen chars node n x))
        ((rows (project, node)).map NodeHeartbeat.json) := by
  have hkey : (heartbeatUpsert chars env projectId nodeId runtime clientVersion startedAt isLeader lastSeen).key =
      (projectId, nodeId) := rfl
  rw [Upsert.apply, hkey]
  by_cases hboth : projectId = project ∧ nodeId = node
  · obtain ⟨rfl, rfl⟩ := hboth
    rw [if_pos ⟨rfl, rfl⟩, Function.update_self, Option.map_some, hseen]
    rfl
  · have hne : (project, node) ≠ (projectId, nodeId) := by
      rw [Ne, Prod.mk.injEq]
      exact fun h => hboth ⟨h.1.symm, h.2.symm⟩
    rw [if_neg hboth, Function.update_of_ne hne]
    rfl

theorem nodeUpserts_sightings {rows : Guid × Text → Option NodeHeartbeat} (call : Call) (project : Guid) (node : Text) :
    ((call.nodeUpserts chars env projectId).foldl Upsert.apply rows (project, node)).map NodeHeartbeat.json =
      (SavedCall.sightings project node ⟨projectId, env, call⟩).foldl (fun n x => some (seen chars node n x))
        ((rows (project, node)).map NodeHeartbeat.json) := by
  cases call with
  | handshake request =>
    simp only [Call.nodeUpserts, SavedCall.sightings, List.foldl_cons, List.foldl_nil]
    refine heartbeatUpsert_apply _ project node fun row => ?_
    cases row with
    | none => simp [heartbeatUpsert, seen, NodeHeartbeat.json]
    | some row => simp [heartbeatUpsert, seen, NodeHeartbeat.json]
  | sendHeartbeat request =>
    simp only [Call.nodeUpserts, SavedCall.sightings, List.foldl_cons, List.foldl_nil]
    refine heartbeatUpsert_apply _ project node fun row => ?_
    cases row with
    | none => simp [heartbeatUpsert, seen, NodeHeartbeat.json]
    | some row => simp [heartbeatUpsert, seen, NodeHeartbeat.json, isNullOrWhiteSpace]
  | sendRuns | sendLogs => rfl

theorem foldl_listed (first : JobDefinitionMessage × DateTime) (rest : List (JobDefinitionMessage × DateTime)) :
    (first :: rest).foldl (fun job d => some (listed job d)) none = registered (first :: rest) := by
  rw [List.foldl_cons]
  rcases List.eq_nil_or_concat rest with rfl | ⟨rest, last, rfl⟩
  · rfl
  · rw [List.concat_eq_append]
    have hkeeps : ∀ (l : List (JobDefinitionMessage × DateTime)) (job : JobJson),
        ∃ job', l.foldl (fun job d => some (listed job d)) (some job) = some job' ∧ job'.name = job.name ∧
          job'.firstSeen = job.firstSeen := by
      intro l
      induction l with
      | nil => exact fun job => ⟨job, rfl, rfl, rfl⟩
      | cons d l ih =>
        intro job
        obtain ⟨job', hjob', hname, hfirst⟩ := ih (listed (some job) d)
        exact ⟨job', hjob', hname, hfirst⟩
    obtain ⟨job', hjob', hname, hfirst⟩ := hkeeps rest (listed none first)
    have hlast : (first :: (rest ++ [last])).getLast? = some last := by
      rw [← List.cons_append, List.getLast?_concat]
    rw [List.foldl_append, hjob', registered, hlast]
    simp [listed, hname, hfirst]

theorem foldl_listed_eq (listings : List (JobDefinitionMessage × DateTime)) :
    listings.foldl (fun job d => some (listed job d)) none = registered listings := by
  cases listings with
  | nil => rfl
  | cons first rest => exact foldl_listed first rest

/-! ## Every run of calls -/

def listings (projectId : Guid) (name : Text) (saved : List SavedCall) : List (JobDefinitionMessage × DateTime) :=
  saved.flatMap (SavedCall.listings projectId name)

def sightings (projectId : Guid) (nodeId : Text) (saved : List SavedCall) : List Sighting :=
  saved.flatMap (SavedCall.sightings projectId nodeId)

/-- A node by its sightings. -/
def known (chars : CharTable) (nodeId : Text) (sightings : List Sighting) : Option NodeJson :=
  sightings.foldl (fun node x => some (seen chars nodeId node x)) none

/-- The rows are what the saved calls say. -/
structure Registered (chars : CharTable) (s : IngestDesk) : Prop where
  jobs : ∀ projectId name, (jobOf s.db.tables (projectId, name)).map JobDefinition.json =
    registered (listings projectId name s.saved)
  nodes : ∀ projectId nodeId, (nodeOf s.db.tables (projectId, nodeId)).map NodeHeartbeat.json =
    known chars nodeId (sightings projectId nodeId s.saved)

theorem registered_step {s s' : IngestDesk} {e : IngestEvent} (hi : Registered chars s) (h : s.step chars tryParse e = some s') :
    Registered chars s' := by
  simp only [IngestDesk.step] at h
  split at h
  · cases h
    exact hi
  · rename_i apiKey hkey
    cases h
    rcases @unaryServerHandler_cases chars tryParse e.env e.accepted s.db e.header e.call with
      ⟨hfailed, hdb⟩ | ⟨apiKey', hkey', hsucceeded, hrun⟩
    · simp only [hfailed, Bool.false_eq_true, if_false, hdb]
      exact hi
    · rw [hkey] at hkey'
      cases hkey'
      simp only [hsucceeded, if_true]
      obtain ⟨hjobs, hnodes⟩ := run_upserts (IngestDb.keyed _) hrun
      refine ⟨fun projectId name => ?_, fun projectId nodeId => ?_⟩
      · rw [hjobs, jobUpserts_listings, hi.jobs]
        simp only [listings, List.flatMap_append, List.flatMap_cons, List.flatMap_nil, List.append_nil, ← foldl_listed_eq,
          List.foldl_append]
      · rw [hnodes, nodeUpserts_sightings, hi.nodes]
        simp only [known, sightings, List.flatMap_append, List.flatMap_cons, List.flatMap_nil, List.append_nil, List.foldl_append]

theorem mem_getJobsAsync (collation : OrderBy Text) (db : IngestDb) (projectId : Guid) (json : JobJson) :
    json ∈ getJobsAsync collation db.tables projectId ↔
      ∃ name, (jobOf db.tables (projectId, name)).map JobDefinition.json = some json := by
  unfold getJobsAsync
  rw [List.mem_map]
  constructor
  · rintro ⟨row, hrow, rfl⟩
    obtain ⟨hrow, hproject⟩ := List.mem_filter.1 (collation.mem_sort.1 hrow)
    refine ⟨row.name, ?_⟩
    have hfound : jobOf db.tables (projectId, row.name) = some row :=
      (find_row_iff (keysOk_jobs db.keyed).2 _ _).2 ⟨hrow, by rw [jobKey, of_decide_eq_true hproject]⟩
    rw [hfound, Option.map_some]
  · rintro ⟨name, hname⟩
    obtain ⟨row, hrow, rfl⟩ := Option.map_eq_some_iff.1 hname
    obtain ⟨hrow, hk⟩ := find_row_mem hrow
    exact ⟨row, collation.mem_sort.2 (List.mem_filter.2 ⟨hrow, decide_eq_true (Prod.mk.inj hk).1⟩), rfl⟩

theorem mem_getNodesAsync (db : IngestDb) (projectId : Guid) (json : NodeJson) :
    json ∈ getNodesAsync db.tables projectId ↔
      ∃ nodeId, (nodeOf db.tables (projectId, nodeId)).map NodeHeartbeat.json = some json := by
  unfold getNodesAsync
  rw [List.mem_map]
  constructor
  · rintro ⟨row, hrow, rfl⟩
    obtain ⟨hrow, hproject⟩ := List.mem_filter.1 ((OrderBy.mem_sort _).1 hrow)
    refine ⟨row.nodeId, ?_⟩
    have hfound : nodeOf db.tables (projectId, row.nodeId) = some row :=
      (find_row_iff (keysOk_nodes db.keyed).2 _ _).2 ⟨hrow, by rw [nodeKey, of_decide_eq_true hproject]⟩
    rw [hfound, Option.map_some]
  · rintro ⟨nodeId, hnode⟩
    obtain ⟨row, hrow, rfl⟩ := Option.map_eq_some_iff.1 hnode
    obtain ⟨hrow, hk⟩ := find_row_mem hrow
    exact ⟨row, (OrderBy.mem_sort _).2 (List.mem_filter.2 ⟨hrow, decide_eq_true (Prod.mk.inj hk).1⟩), rfl⟩

/-- A project lists no job twice. -/
theorem nodup_getJobsAsync (collation : OrderBy Text) (db : IngestDb) (projectId : Guid) :
    ((getJobsAsync collation db.tables projectId).map JobJson.name).Nodup := by
  unfold getJobsAsync
  rw [List.map_map]
  have hperm := (collation.perm JobDefinition.name (db.tables.jobDefinitions.filter fun j => j.projectId = projectId)).map
    (JobJson.name ∘ JobDefinition.json)
  rw [hperm.nodup_iff]
  have hkeys := nodup_map_filter (fun j : JobDefinition => decide (j.projectId = projectId)) (keysOk_jobs db.keyed).2
  refine (List.nodup_map_iff_inj_on (List.Nodup.of_map _ hkeys)).2 fun x hx y hy hname => ?_
  refine List.inj_on_of_nodup_map hkeys hx hy ?_
  rw [jobKey, jobKey, of_decide_eq_true (List.mem_filter.1 hx).2, of_decide_eq_true (List.mem_filter.1 hy).2]
  exact congrArg _ hname

/-- In every run of calls, under any keys, on a database that starts without jobs
and nodes: a project's jobs are those its saved handshakes listed, each once,
with the settings of the last listing and the times of the first and the last;
its nodes are what their handshakes and heartbeats said, one after the other. -/
theorem registrations_follow_calls (chars : CharTable) (tryParse : Text → Option Guid) (collation : OrderBy Text)
    (before : IngestDb) (hjobs : before.tables.jobDefinitions = []) (hnodes : before.tables.nodeHeartbeats = [])
    (es : List IngestEvent) (s : IngestDesk) (hrun : exec (IngestDesk.step chars tryParse) ⟨before, []⟩ es = some s)
    (projectId : Guid) :
    (∀ json, json ∈ getJobsAsync collation s.db.tables projectId ↔
      ∃ name, registered (listings projectId name s.saved) = some json) ∧
    ((getJobsAsync collation s.db.tables projectId).map JobJson.name).Nodup ∧
    (∀ json, json ∈ getNodesAsync s.db.tables projectId ↔
      ∃ nodeId, known chars nodeId (sightings projectId nodeId s.saved) = some json) := by
  have hi : Registered chars s := by
    refine exec_inv (Registered chars) (fun _ _ _ hi h => registered_step hi h) ⟨fun _ _ => ?_, fun _ _ => ?_⟩ hrun
    · rw [jobOf, hjobs]
      rfl
    · rw [nodeOf, hnodes]
      rfl
  refine ⟨fun json => ?_, nodup_getJobsAsync collation s.db projectId, fun json => ?_⟩
  · rw [mem_getJobsAsync]
    exact exists_congr fun name => by rw [hi.jobs]
  · rw [mem_getNodesAsync]
    exact exists_congr fun nodeId => by rw [hi.nodes]

end Calls

/-! ## Two handshakes of a project, one of another -/

def mailJob (cron : String) : JobDefinitionMessage := ⟨"mail".toList, cron.toList, 1, 0, true, true⟩

def helloAt (now : DateTime) (guid : Nat → Guid) (h : ∀ k, guid k ≠ 0) (key cron : String) : IngestEvent where
  env := ⟨fun _ => now, guid, h⟩
  accepted := true
  header := some key.toList
  call := .handshake ⟨"n1".toList, "1.0".toList, "net10.0".toList, [mailJob cron], none⟩

theorem ne_zero_of_lt {n : Nat} (hpos : 0 < n) (hlt : n < 2 ^ 128) : BitVec.ofNat 128 n ≠ 0 := by
  intro h
  have hnat := congrArg BitVec.toNat h
  rw [BitVec.toNat_ofNat, Nat.mod_eq_of_lt hlt] at hnat
  exact absurd hnat (Nat.ne_of_gt hpos)

/-- The cron expression of `mail` changes; the other project has a job of that name too. -/
def threeHellos : List IngestEvent :=
  [helloAt 10 (fun k => .ofNat 128 (21 + k % 9)) (fun k => ne_zero_of_lt (by omega) (by omega)) "k1" "* * * * *",
    helloAt 20 (fun k => .ofNat 128 (31 + k % 9)) (fun k => ne_zero_of_lt (by omega) (by omega)) "k2" "0 0 * * *",
    helloAt 30 (fun k => .ofNat 128 (41 + k % 9)) (fun k => ne_zero_of_lt (by omega) (by omega)) "k1" "0 * * * *"]

def runThreeHellos : Option IngestDesk := exec (IngestDesk.step ascii tryParseHyphenated) ⟨twoTenants, []⟩ threeHellos

theorem registrations_follow_threeHellos :
    ∃ s, runThreeHellos = some s ∧
      ⟨"mail".toList, "0 * * * *".toList, 1, 0, true, true, 10, 30⟩ ∈ getJobsAsync (.linear Text) s.db.tables 1 := by
  have hsome : runThreeHellos.isSome = true := by decide +kernel
  have hall : runThreeHellos.all (fun s => registered (listings 1 "mail".toList s.saved) =
      some ⟨"mail".toList, "0 * * * *".toList, 1, 0, true, true, 10, 30⟩) = true := by
    decide +kernel
  obtain ⟨s, hs⟩ := Option.isSome_iff_exists.1 hsome
  rw [hs] at hall
  obtain ⟨hlisted, -, -⟩ := registrations_follow_calls ascii tryParseHyphenated (.linear Text) twoTenants rfl rfl threeHellos s hs 1
  exact ⟨s, hs, (hlisted _).2 ⟨"mail".toList, of_decide_eq_true hall⟩⟩

end DuckRun.Dashboard
