import DuckRun.Dashboard.GroupEndpoints
import DuckRun.Lib.EntitySet
/-!
# The ingest service

The four calls a runtime makes with its DSN key, and the interceptor that
turns the key into a project. A call works on one `EntitySet` per table and
saves at its end; whatever it throws, nothing is saved.

EF Core draws a key for an added entity whose `Guid` key is empty, and the
database numbers the console rows.
-/

namespace DuckRun.Dashboard

open DuckRun.Lib

/-! ## Messages -/

/-- `google.protobuf.Timestamp`. -/
structure Timestamp where
  seconds : Int
  nanos : Int
  deriving DecidableEq, Repr

structure JobDefinitionMessage where
  name : Text
  cron : Text
  maxConcurrency : Int
  timeoutSeconds : Int
  allowManualTrigger : Bool
  enabled : Bool

structure HandshakeRequest where
  nodeId : Text
  clientVersion : Text
  runtime : Text
  jobs : List JobDefinitionMessage
  startedAt : Option Timestamp

structure HeartbeatRequest where
  nodeId : Text
  at_ : Option Timestamp
  isLeader : Bool

structure RunRecord where
  id : Text
  jobName : Text
  nodeId : Text
  createdAt : Option Timestamp
  startedAt : Option Timestamp
  finishedAt : Option Timestamp
  state : Text
  triggerSource : Text
  errorMessage : Text
  errorStackTrace : Text

structure LogEntry where
  runId : Text
  timestamp : Option Timestamp
  level : Text
  message : Text

inductive Call where
  | handshake (request : HandshakeRequest)
  | sendHeartbeat (request : HeartbeatRequest)
  | sendRuns (runs : List RunRecord)
  | sendLogs (logs : List LogEntry)

inductive Reply where
  | handshakeResponse (acceptedProtocolVersion : String) (projectId : String)
  | ack (ok : Bool)
  | rpcException (status : String) (detail : String)
  | fault (exception : String)
  deriving DecidableEq, Repr

def Reply.succeeded : Reply → Bool
  | .handshakeResponse _ _ | .ack _ => true
  | _ => false

/-! ## Tables -/

structure ApiKey where
  id : Guid
  projectId : Guid
  publicKey : Text
  label : Text
  createdAt : DateTime
  revokedAt : Option DateTime
  deriving DecidableEq, Repr

structure JobDefinition where
  id : Guid
  projectId : Guid
  name : Text
  cron : Text
  maxConcurrency : Int
  timeoutSeconds : Int
  allowManualTrigger : Bool
  enabled : Bool
  firstSeen : DateTime
  lastSeen : DateTime
  deriving DecidableEq, Repr

structure JobRun where
  id : Guid
  projectId : Guid
  jobName : Text
  nodeId : Text
  createdAt : DateTime
  startedAt : Option DateTime
  finishedAt : Option DateTime
  state : Text
  triggerSource : Text
  errorMessage : Option Text
  errorStackTrace : Option Text
  receivedAt : DateTime
  deriving DecidableEq, Repr

structure ConsoleLog where
  id : Int
  projectId : Guid
  runId : Guid
  timestamp : DateTime
  level : Text
  message : Text
  deriving DecidableEq, Repr

structure NodeHeartbeat where
  id : Guid
  projectId : Guid
  nodeId : Text
  startedAt : DateTime
  lastSeen : DateTime
  isLeader : Bool
  runtime : Text
  clientVersion : Text
  deriving DecidableEq, Repr

structure IngestTables where
  apiKeys : List ApiKey
  jobDefinitions : List JobDefinition
  jobRuns : List JobRun
  consoleLogs : List ConsoleLog
  nodeHeartbeats : List NodeHeartbeat
  /-- What the database numbers the next console row with. -/
  nextLogId : Int
  deriving DecidableEq, Repr

/-- The primary keys and the unique indexes. -/
def IngestTables.keysOk (t : IngestTables) : Bool :=
  (t.jobRuns.map JobRun.id).Nodup && (t.nodeHeartbeats.map NodeHeartbeat.id).Nodup &&
  (t.nodeHeartbeats.map fun h => (h.projectId, h.nodeId)).Nodup && (t.jobDefinitions.map JobDefinition.id).Nodup &&
  (t.jobDefinitions.map fun j => (j.projectId, j.name)).Nodup && (t.consoleLogs.map ConsoleLog.id).Nodup &&
  (t.apiKeys.map ApiKey.id).Nodup && (t.apiKeys.map ApiKey.publicKey).Nodup

/-- A database never holds tables that violate its keys. -/
structure IngestDb where
  tables : IngestTables
  keyed : tables.keysOk = true

def IngestDb.saveChanges (accepted : Bool) (t : IngestTables) : Option IngestDb :=
  if h : t.keysOk = true then (if accepted then some ⟨t, h⟩ else none) else none

theorem IngestDb.saveChanges_some {accepted : Bool} {t : IngestTables} {db : IngestDb}
    (h : IngestDb.saveChanges accepted t = some db) : db.tables = t := by
  unfold IngestDb.saveChanges at h
  split at h
  · split at h
    · cases h; rfl
    · cases h
  · cases h

/-! ## Conversions -/

/-- `Timestamp.ToDateTime()`: ticks since year 1, for a normalized timestamp within years 1 to 9999. -/
def Timestamp.toDateTime (t : Timestamp) : Except String DateTime :=
  if 0 ≤ t.nanos ∧ t.nanos ≤ 999999999 ∧ -62135596800 ≤ t.seconds ∧ t.seconds ≤ 253402300799 then
    .ok ((t.seconds + 62135596800) * 10000000 + t.nanos / 100)
  else .error "Timestamp contains invalid values."

/-- `t?.ToDateTime()`. -/
def toDateTime? : Option Timestamp → Except String (Option DateTime)
  | none => .ok none
  | some t => t.toDateTime.map some

def nullIfEmpty (s : Text) : Option Text := if s = [] then none else some s

/-- What a call takes from outside: readings of `DateTime.UtcNow` and new
`Guid`s, which are never empty. -/
structure IngestAmbient where
  clock : Nat → DateTime
  newGuid : Nat → Guid
  newGuid_ne : ∀ k, newGuid k ≠ 0

/-! ## The interceptor -/

def metadataKey : String := "x-duckrun-key"

section Service
variable (chars : CharTable) (tryParse : Text → Option Guid)

/-- `ResolveAsync`, from the value of the metadata header. -/
def resolveAsync (t : IngestTables) (header : Option Text) : Except Reply ApiKey :=
  if isNullOrWhiteSpace chars header then .error (.rpcException "Unauthenticated" s!"Missing '{metadataKey}' metadata.")
  else
    match t.apiKeys.filter fun k => some k.publicKey = header ∧ k.revokedAt = none with
    | [] => .error (.rpcException "Unauthenticated" "Invalid or revoked DSN.")
    | [apiKey] => .ok apiKey
    | _ => .error (.fault "Sequence contains more than one element.")

/-- The project the interceptor left in the call's user state. -/
def resolveProject (userState : Option Guid) : Except Reply Guid :=
  match userState with
  | some projectId => .ok projectId
  | none => .error (.rpcException "Internal" "Project context missing — interceptor did not run.")

/-! ## Upserts -/

def upsertHeartbeatAsync (env : IngestAmbient) (set : EntitySet NodeHeartbeat) (projectId : Guid) (nodeId : Text)
    (runtime clientVersion : Option Text) (startedAt : Option DateTime) (isLeader : Bool) (lastSeen : DateTime) :
    Except String (EntitySet NodeHeartbeat) := do
  match ← set.singleOrDefault fun h => h.projectId = projectId && h.nodeId = nodeId with
  | none =>
    return set.add
      { id := env.newGuid 0, projectId := projectId, nodeId := nodeId, startedAt := startedAt.getD lastSeen,
        lastSeen := lastSeen, isLeader := isLeader, runtime := runtime.getD [], clientVersion := clientVersion.getD [] }
  | some existing =>
    return set.modify NodeHeartbeat.id existing.id fun h =>
      { h with
        lastSeen := lastSeen
        isLeader := isLeader
        runtime := if isNullOrWhiteSpace chars runtime then h.runtime else runtime.getD []
        clientVersion := if isNullOrWhiteSpace chars clientVersion then h.clientVersion else clientVersion.getD []
        startedAt := startedAt.getD h.startedAt }

/-- `index` counts the definitions of the request. -/
def upsertJobDefinitionAsync (env : IngestAmbient) (projectId : Guid) (now : DateTime) (set : EntitySet JobDefinition)
    (d : JobDefinitionMessage × Nat) : Except String (EntitySet JobDefinition) := do
  let (definition, index) := d
  match ← set.singleOrDefault fun j => j.projectId = projectId && j.name = definition.name with
  | none =>
    return set.add
      { id := env.newGuid (index + 1), projectId := projectId, name := definition.name, cron := definition.cron,
        maxConcurrency := definition.maxConcurrency, timeoutSeconds := definition.timeoutSeconds,
        allowManualTrigger := definition.allowManualTrigger, enabled := definition.enabled,
        firstSeen := now, lastSeen := now }
  | some existing =>
    return set.modify JobDefinition.id existing.id fun j =>
      { j with
        cron := definition.cron
        maxConcurrency := definition.maxConcurrency
        timeoutSeconds := definition.timeoutSeconds
        allowManualTrigger := definition.allowManualTrigger
        enabled := definition.enabled
        lastSeen := now }

/-! ## The calls -/

def handshake (env : IngestAmbient) (projectId : Guid) (t : IngestTables) (request : HandshakeRequest) :
    Except String (IngestTables × Reply) := do
  let now := env.clock 0
  let startedAt := (← toDateTime? request.startedAt).getD now
  let heartbeats ← upsertHeartbeatAsync chars env (.open_ t.nodeHeartbeats) projectId request.nodeId
    (some request.runtime) (some request.clientVersion) (some startedAt) false now
  let definitions ← request.jobs.zipIdx.foldlM (upsertJobDefinitionAsync env projectId now) (.open_ t.jobDefinitions)
  return ({ t with nodeHeartbeats := heartbeats.saved, jobDefinitions := definitions.saved },
    .handshakeResponse "v1" (guidText projectId))

def sendHeartbeat (env : IngestAmbient) (projectId : Guid) (t : IngestTables) (request : HeartbeatRequest) :
    Except String (IngestTables × Reply) := do
  let seen := (← toDateTime? request.at_).getD (env.clock 0)
  let heartbeats ← upsertHeartbeatAsync chars env (.open_ t.nodeHeartbeats) projectId request.nodeId
    none none none request.isLeader seen
  return ({ t with nodeHeartbeats := heartbeats.saved }, .ack true)

/-- One round of `SendRuns`: `FindAsync` goes by the primary key alone. -/
def sendRun (env : IngestAmbient) (projectId : Guid) (now : DateTime) (set : EntitySet JobRun)
    (record : RunRecord × Nat) : Except String (EntitySet JobRun) := do
  let (r, index) := record
  match tryParse r.id with
  | none => return set
  | some runId =>
    match set.find JobRun.id runId with
    | none =>
      let createdAt := (← toDateTime? r.createdAt).getD now
      let startedAt ← toDateTime? r.startedAt
      let finishedAt ← toDateTime? r.finishedAt
      return set.add
        { id := if runId = 0 then env.newGuid index else runId, projectId := projectId, jobName := r.jobName,
          nodeId := r.nodeId, createdAt := createdAt, startedAt := startedAt, finishedAt := finishedAt,
          state := r.state, triggerSource := r.triggerSource, errorMessage := nullIfEmpty r.errorMessage,
          errorStackTrace := nullIfEmpty r.errorStackTrace, receivedAt := now }
    | some _ =>
      let startedAt ← toDateTime? r.startedAt
      let finishedAt ← toDateTime? r.finishedAt
      return set.modify JobRun.id runId fun existing =>
        { existing with
          jobName := r.jobName
          nodeId := r.nodeId
          startedAt := startedAt.or existing.startedAt
          finishedAt := finishedAt.or existing.finishedAt
          state := r.state
          triggerSource := r.triggerSource
          errorMessage := (nullIfEmpty r.errorMessage).or existing.errorMessage
          errorStackTrace := (nullIfEmpty r.errorStackTrace).or existing.errorStackTrace
          receivedAt := now }

def sendRuns (env : IngestAmbient) (projectId : Guid) (t : IngestTables) (runs : List RunRecord) :
    Except String (IngestTables × Reply) := do
  let now := env.clock 0
  let set ← runs.zipIdx.foldlM (sendRun tryParse env projectId now) (.open_ t.jobRuns)
  return ({ t with jobRuns := set.saved }, .ack true)

/-- One round of `SendLogs`: the rows added so far, still without the database's numbers. -/
def sendLog (env : IngestAmbient) (projectId : Guid) (added : List (Int → ConsoleLog)) (record : LogEntry × Nat) :
    Except String (List (Int → ConsoleLog)) := do
  let (entry, index) := record
  match tryParse entry.runId with
  | none => return added
  | some runId =>
    let timestamp := (← toDateTime? entry.timestamp).getD (env.clock index)
    return added ++ [fun id => ⟨id, projectId, runId, timestamp, entry.level, entry.message⟩]

def sendLogs (env : IngestAmbient) (projectId : Guid) (t : IngestTables) (logs : List LogEntry) :
    Except String (IngestTables × Reply) := do
  let added ← logs.zipIdx.foldlM (sendLog tryParse env projectId) []
  let rows := added.zipIdx.map fun (row, i) => row (t.nextLogId + i)
  return ({ t with consoleLogs := t.consoleLogs ++ rows, nextLogId := t.nextLogId + added.length }, .ack true)

/-- What a call would save, and its answer. -/
def run (env : IngestAmbient) (projectId : Guid) (t : IngestTables) : Call → Except String (IngestTables × Reply)
  | .handshake request => handshake chars env projectId t request
  | .sendHeartbeat request => sendHeartbeat chars env projectId t request
  | .sendRuns runs => sendRuns tryParse env projectId t runs
  | .sendLogs logs => sendLogs tryParse env projectId t logs

/-- One call through the interceptor. -/
def unaryServerHandler (env : IngestAmbient) (accepted : Bool) (db : IngestDb) (header : Option Text) (call : Call) :
    Reply × IngestDb :=
  match (resolveAsync chars db.tables header).bind fun apiKey => resolveProject (some apiKey.projectId) with
  | .error e => (e, db)
  | .ok projectId =>
    match run chars tryParse env projectId db.tables call with
    | .error e => (.fault e, db)
    | .ok (t, reply) =>
      match IngestDb.saveChanges accepted t with
      | none => (.fault "DbUpdateException", db)
      | some db' => (reply, db')

end Service

/-! ## The runs endpoint -/

structure RunJson where
  id : Guid
  jobName : Text
  nodeId : Text
  state : Text
  triggerSource : Text
  createdAt : DateTime
  startedAt : Option DateTime
  finishedAt : Option DateTime
  errorMessage : Option Text
  errorStackTrace : Option Text
  deriving DecidableEq, Repr

/-- `GetRunAsync`: `none` is `NotFound`. -/
def getRunAsync (t : IngestTables) (id runId : Guid) : Except String (Option RunJson) := do
  let r ← (EntitySet.open_ t.jobRuns).singleOrDefault fun x => x.projectId = id && x.id = runId
  return r.map fun r => ⟨r.id, r.jobName, r.nodeId, r.state, r.triggerSource, r.createdAt, r.startedAt, r.finishedAt,
    r.errorMessage, r.errorStackTrace⟩

end DuckRun.Dashboard
