import DuckRun.Redis.Leases
/-!
# A cluster of Redis coordinators

Any number of processes of one project and environment, each with its
`RedisClusterCoordinator` and its scheduler loop, against one Redis server. A
process takes the steps of the maintenance loop, of `StopAsync` and of the
scheduler in the order of the source; which process takes the next step, how
long anything takes and which calls fail is open.
-/

namespace DuckRun.Redis

open DuckRun.Lib DuckRun.Lib.Expiry

/-- Where `RunMaintenanceLoopAsync` is. -/
inductive TickPhase where
  /-- In `Task.Delay`. -/
  | idle
  /-- In `DoMaintenanceTickAsync`, writing the heartbeat. -/
  | begun
  /-- The script is on its way to the server. -/
  | sent
  /-- The script's result is on its way back. -/
  | answered (result : Nat)
  | exited
  deriving DecidableEq, Repr

/-- How far the host has brought the coordinator. -/
inductive Lifecycle where
  | running
  /-- `StopAsync` has cancelled `_stopCts` and awaits the loop. -/
  | stopping
  /-- `StopAsync` awaits the release script. -/
  | releasing
  | stopped
  | crashed
  deriving DecidableEq, Repr

/-- Where the scheduler's `ExecuteAsync` is: before its next leader check, among the jobs of a leader tick, or done. -/
inductive SchedulerPhase where
  | polling
  | leading
  | stopped
  deriving DecidableEq, Repr

structure CoordinatorNode where
  /-- `(int)Math.Max(1, options.LeaderLeaseDuration.TotalSeconds)`. -/
  leaderTtl : Nat
  /-- `_isLeader`. -/
  isLeader : Bool
  tick : TickPhase
  /-- Leader scripts that the server may still run although their caller has given up. -/
  strays : Nat
  lifecycle : Lifecycle
  /-- The release script is on its way to the server. -/
  releaseSent : Bool
  scheduler : SchedulerPhase
  /-- When the server last granted a script of this process. -/
  grantedAt : Option Nat
  /-- The release script deleted the key. -/
  released : Bool
  /-- The scheduler attempted a job after that. -/
  firedAfterRelease : Bool
  deriving DecidableEq, Repr

/-- A process whose `StartAsync` does the initial tick. If that tick throws,
so does `StartAsync`: such a process is one that takes no step after `fail`. -/
def CoordinatorNode.new (leaderTtl : Nat) : CoordinatorNode where
  leaderTtl := max 1 leaderTtl
  isLeader := false
  tick := .begun
  strays := 0
  lifecycle := .running
  releaseSent := false
  scheduler := .polling
  grantedAt := none
  released := false
  firedAfterRelease := false

/-- `IsLeaderAsync`. -/
def CoordinatorNode.isLeaderAsync (n : CoordinatorNode) : Bool := n.isLeader

/-- One step of a process. -/
inductive NodeAct where
  /-- The delay is over and the token not cancelled. -/
  | begin_
  /-- The heartbeat is written, the script sent. -/
  | send
  /-- The server runs the script. -/
  | execute
  | receive
  /-- The tick throws: the loop's `catch` demotes. -/
  | fail
  /-- The tick throws an `OperationCanceledException`: the loop breaks. -/
  | cancelled
  | executeStray
  | exit
  | crash
  /-- `StopAsync` is called. -/
  | stop
  /-- `StopAsync` has the loop behind it, or its own token has been cancelled. -/
  | awaited (gaveUp : Bool)
  /-- The server runs the release script. -/
  | release
  | stopReturns
  /-- The scheduler asks `IsLeaderAsync`. -/
  | check
  /-- The scheduler attempts a job that is due. -/
  | fire
  | tickEnds
  /-- The host has stopped the coordinator and now stops the scheduler. -/
  | schedulerStops
  deriving DecidableEq, Repr

def TickPhase.waiting : TickPhase → Bool
  | .begun | .sent | .answered _ => true
  | _ => false

/-- Leader scripts left behind by a tick that throws. -/
def TickPhase.strays : TickPhase → Nat
  | .sent => 1
  | _ => 0

/-- One step of process `id` at `clock`, on the leader key. -/
def CoordinatorNode.step (clock : Nat) (key : Option (Entry Nat)) (id : Nat) (n : CoordinatorNode) :
    NodeAct → Option (Option (Entry Nat) × CoordinatorNode)
  | .begin_ =>
    if n.tick = .idle ∧ n.lifecycle = .running then some (key, { n with tick := .begun }) else none
  | .send => if n.tick = .begun ∧ n.lifecycle ≠ .crashed then some (key, { n with tick := .sent }) else none
  | .execute =>
    if n.tick = .sent then
      match acquireOrRefreshLeader clock id n.leaderTtl key with
      | (key', result) =>
        some (key', { n with
          tick := .answered result, grantedAt := if result = 1 then some clock else n.grantedAt })
    else none
  | .receive =>
    match n.tick with
    | .answered result =>
      if n.lifecycle ≠ .crashed then some (key, { n with tick := .idle, isLeader := result == 1 }) else none
    | _ => none
  | .fail =>
    if n.tick.waiting ∧ n.lifecycle ≠ .crashed then
      some (key, { n with tick := .idle, isLeader := false, strays := n.strays + n.tick.strays })
    else none
  | .cancelled =>
    if n.tick.waiting ∧ n.lifecycle ≠ .crashed then
      some (key, { n with tick := .exited, strays := n.strays + n.tick.strays })
    else none
  | .executeStray =>
    if 0 < n.strays then
      some ((acquireOrRefreshLeader clock id n.leaderTtl key).1, { n with strays := n.strays - 1 })
    else none
  | .exit =>
    if n.tick = .idle ∧ n.lifecycle ≠ .running ∧ n.lifecycle ≠ .crashed then some (key, { n with tick := .exited })
    else none
  | .crash => some (key, { n with lifecycle := .crashed })
  | .stop => if n.lifecycle = .running then some (key, { n with lifecycle := .stopping }) else none
  | .awaited gaveUp =>
    if n.lifecycle = .stopping ∧ (n.tick = .exited ∨ gaveUp) then
      if n.isLeader then some (key, { n with lifecycle := .releasing, releaseSent := true })
      else some (key, { n with lifecycle := .stopped })
    else none
  | .release =>
    if n.releaseSent then
      match releaseLeader clock id key with
      | (key', result) => some (key', { n with releaseSent := false, released := n.released || result == 1 })
    else none
  | .stopReturns => if n.lifecycle = .releasing then some (key, { n with lifecycle := .stopped }) else none
  | .check =>
    if n.scheduler = .polling ∧ n.lifecycle ≠ .crashed then
      some (key, { n with scheduler := if n.isLeaderAsync then .leading else .polling })
    else none
  | .fire =>
    if n.scheduler = .leading ∧ n.lifecycle ≠ .crashed then
      some (key, { n with firedAfterRelease := n.firedAfterRelease || n.released })
    else none
  | .tickEnds =>
    if n.scheduler = .leading ∧ n.lifecycle ≠ .crashed then some (key, { n with scheduler := .polling }) else none
  | .schedulerStops =>
    if n.scheduler = .polling ∧ n.lifecycle = .stopped then some (key, { n with scheduler := .stopped }) else none

/-- The server's clock and leader key, and the processes that ever were; a
process is its place in the list, as each has a new Guid for its `NodeId`. -/
structure Cluster where
  clock : Nat
  key : Option (Entry Nat)
  nodes : List CoordinatorNode

def Cluster.empty : Cluster := ⟨0, none, []⟩

inductive ClusterEvent where
  | start (leaderTtl : Nat)
  | advance (d : Nat)
  | act (i : Nat) (a : NodeAct)
  deriving DecidableEq, Repr

def Cluster.step (s : Cluster) : ClusterEvent → Option Cluster
  | .start leaderTtl => some { s with nodes := s.nodes ++ [.new leaderTtl] }
  | .advance d => some { s with clock := s.clock + d }
  | .act i a => do
    let n ← s.nodes[i]?
    let (key, n') ← n.step s.clock s.key i a
    return { s with key := key, nodes := s.nodes.set i n' }

theorem Cluster.act_cases {s s' : Cluster} {i : Nat} {a : NodeAct} (h : s.step (.act i a) = some s') :
    ∃ n key n', s.nodes[i]? = some n ∧ n.step s.clock s.key i a = some (key, n') ∧
      s' = { s with key := key, nodes := s.nodes.set i n' } := by
  obtain ⟨n, hn, h⟩ := Option.bind_eq_some_iff.1 h
  obtain ⟨⟨key, n'⟩, hs, h⟩ := Option.bind_eq_some_iff.1 h
  cases h
  exact ⟨n, key, n', hn, hs, rfl⟩

end DuckRun.Redis
