import DuckRun.Redis.SlotSet
import DuckRun.Runtime.SlotInvariants
/-!
# Slots across a cluster

Any number of nodes run the operations of `Slots` with a Redis server as their
coordinator: a thread sends its node's clock reading with `AcquireSlot`, the
server runs the script some time later, and disposing of the slot removes it
from the set. The bodies in progress are tracked beside the threads, since a
body may go on after the executor has left it.
-/

namespace DuckRun.Redis

open DuckRun.Lib DuckRun.Lib.Expiry DuckRun.Runtime

/-- `"{NodeId}:{Guid}"`: a thread asks for one slot. -/
abbrev SlotId := Nat × Nat

/-- `SlotTtl`, in whole seconds. -/
def slotTtl : Nat := 3600

/-- An `AcquireSlot` script on its way to the server. -/
structure SlotRequest where
  slotId : SlotId
  reading : Nat
  deriving DecidableEq, Repr

/-- The body of one execution. -/
structure Body where
  slotId : SlotId
  job : JobDescriptor
  deriving DecidableEq, Repr

/-- All nodes share one clock, which is also the server's. -/
structure SlotCluster where
  clock : Nat
  nodes : List Node
  /-- `"{KeyPrefix}:slots:{jobName}"`. -/
  slots : String → Option (Entry (SortedSet SlotId))
  requests : List SlotRequest
  bodies : List Body
  /-- The scores of the slots that were granted. -/
  granted : SlotId → Option Nat

def SlotCluster.empty : SlotCluster := ⟨0, [], fun _ => none, [], [], fun _ => none⟩

inductive SlotClusterEvent where
  | join
  | advance (d : Nat)
  /-- A step of node `i` that needs no answer of the server. -/
  | local_ (i : Nat) (e : NodeEvent)
  /-- `TryAcquireSlotAsync` reads the clock and sends the script. -/
  | request (slotId : SlotId)
  /-- The server runs the script and the caller gets its result. -/
  | script (r : SlotRequest)
  | bodyEnds (b : Body)

/-- The thread is about to call the job's method. -/
def Thread.invokes (t : Thread) : Act → Bool
  | .effect => match t.phase with
    | .executing (.invoked :: _) => true
    | _ => false
  | _ => false

def Act.disposes : Act → Bool
  | .dispose => true
  | _ => false

/-- With a healthy server a thread gets its answer by the script, or none was sent: `_db` is still null. -/
def Act.answered : Act → Bool
  | .coordinator .granted | .coordinator .threw => true
  | _ => false

section Machine
variable (fold : String → String) (registry : List JobDescriptor)

def SlotCluster.step (s : SlotCluster) : SlotClusterEvent → Option SlotCluster
  | .join => some { s with nodes := s.nodes ++ [.empty] }
  | .advance d => some { s with clock := s.clock + d }
  | .local_ i (.act k a) =>
    if Act.answered a then none
    else do
      let n ← s.nodes[i]?
      let t ← n.threads[k]?
      let n' ← n.step fold registry (.act k a)
      return { s with
        nodes := s.nodes.set i n'
        slots :=
          if Act.disposes a && t.holdsRemote then
            Function.update s.slots t.job.name (zrem s.clock (i, k) (s.slots t.job.name))
          else s.slots
        bodies := if Thread.invokes t a then s.bodies.insert ⟨(i, k), t.job⟩ else s.bodies }
  | .local_ i e => do
    let n ← s.nodes[i]?
    let n' ← n.step fold registry e
    return { s with nodes := s.nodes.set i n' }
  | .request slotId => do
    let n ← s.nodes[slotId.1]?
    let t ← n.threads[slotId.2]?
    if t.phase = .coordinator then
      return { s with requests := s.requests ++ [⟨slotId, toUnixTimeSeconds s.clock⟩] }
    else none
  | .script r =>
    if r ∈ s.requests then do
      let n ← s.nodes[r.slotId.1]?
      let t ← n.threads[r.slotId.2]?
      let call := acquireSlot s.clock r.reading t.job.maxConcurrency slotTtl r.slotId (s.slots t.job.name)
      let answer := if call.2 = 1 then Answer.granted else Answer.refused
      let n' ← n.step fold registry (.act r.slotId.2 (.coordinator answer))
      return { s with
        nodes := s.nodes.set r.slotId.1 n'
        slots := Function.update s.slots t.job.name call.1
        requests := s.requests.erase r
        granted := if call.2 = 1 then Function.update s.granted r.slotId (some (r.reading + slotTtl)) else s.granted }
    else none
  | .bodyEnds b => if b ∈ s.bodies then some { s with bodies := s.bodies.erase b } else none

/-- The bodies of a job in progress anywhere in the cluster. -/
def SlotCluster.inProgress (s : SlotCluster) (job : JobDescriptor) : List Body := s.bodies.filter fun b => b.job = job

end Machine

end DuckRun.Redis
