import Jocko.Broker.Groups
import Jocko.Go.Moves

namespace Jocko.Broker

open Go MemDB Fsm Protocol Cluster

/-- The nodes that pass their check. The check of every node is looked at, and the id that is
compared is the node's `ID`, not its number in the cluster. -/
def passingNodes (failed : Int32) : List Fsm.Node → Except Stop (List Fsm.Node)
  | [] => .ok []
  | n :: nodes =>
    match n.check with
    | none => .error (.panic "invalid memory address or nil pointer dereference")
    | some check => do
      let passing ← passingNodes failed nodes
      if check.status = healthPassing ∧ n.id ≠ failed then return n :: passing
      else return passing

/-- The row that takes the place of a partition of the failed broker. -/
def reassigned (failed : Int32) (p : Fsm.Partition) (node : Fsm.Node) : Fsm.Partition where
  id := p.partition
  partition := p.partition
  topic := p.topic
  isr := p.isr.filter (· ≠ failed)
  ar := p.ar.filter (· ≠ failed)
  leader := node.node
  controllerEpoch := 0
  leaderEpoch := 0
  createIndex := 0
  modifyIndex := 0

/-- What the brokers are told of the partition. -/
def reassignedState (p : Fsm.Partition) : PartitionState :=
  ⟨p.topic, p.partition, 0, p.leader, 0, p.isr, 0, p.ar, false⟩

section

variable (lower : Str → Str)

/-- `passing[rand.Intn(len(passing))]` -/
def pickNode (passing : List Fsm.Node) : Call Cluster Fsm.Node := do
  let i ← intn passing.length
  match passing[i]? with
  | some node => return node
  | none => stop (.panic "index out of range")

/-- The loop over the consumer groups of the failed coordinator. -/
def reassignGroups (passing : List Fsm.Node) : List (Obj Fsm.Group) → Call Cluster Unit
  | [] => return ()
  | row :: groups => do
    let node ← pickNode passing
    let group ← GroupRef.edit ⟨some row.addr, row.val⟩ fun g => { g with coordinator := node.node }
    let _ ← raftApply lower (.registerGroup group.val)
    reassignGroups passing groups

/-- The loop over the partitions of the failed leader. -/
def reassignPartitions (failed : Int32) (passing : List Fsm.Node) :
    List Fsm.Partition → Call Cluster (List PartitionState)
  | [] => return []
  | p :: partitions => do
    let node ← pickNode passing
    let _ ← raftApply lower (.registerPartition (reassigned failed p node))
    let states ← reassignPartitions failed passing partitions
    return reassignedState p :: states

/-- The loop that tells the brokers. -/
def tellBrokers (req : LeaderAndISRRequest) : List Fsm.Node → Call Cluster Unit
  | [] => return ()
  | n :: nodes => do
    match ← brokerByID n.node with
    | none => tellBrokers req nodes
    | some broker => do
      reach
      sendLeaderAndISR broker.brokerAddr req
      tellBrokers req nodes

/-- The node that is registered for a failed member. -/
def criticalNode (m : SerfMember) (broker : MetaBroker) : Fsm.Node where
  id := 0
  node := broker.id
  address := []
  check := some ⟨m.tag "raft_addr", serfCheckID, serfCheckName, healthCritical, serfCheckFailedOutput⟩
  nodeMeta := none
  createIndex := 0
  modifyIndex := 0

/-- The part of `handleFailedMember` after the node has been registered. -/
def reassign (failed : Int32) : Call Cluster Unit := do
  let s ← state
  let partitions := (s.partitionsByLeader lower failed).2.map Obj.val
  let passing ← lift (passingNodes failed ((s.getNodes lower).2.map Obj.val))
  reassignGroups lower passing (s.getGroupsByCoordinator lower failed).2
  let states ← reassignPartitions lower failed passing partitions
  tellBrokers ⟨0, ← configID, 0, states, []⟩ passing

def handleFailedMember (m : SerfMember) : Call Cluster Unit := do
  match isBroker m with
  | none => return ()
  | some broker =>
    let _ ← raftApply lower (.registerNode (criticalNode m broker))
    reassign lower broker.id

end

section

variable {lower : Str → Str} {r : Cluster → Cluster → Prop} [IsPreorder Cluster r]
  (draws : ∀ n, (intn n).Moves r)

include draws

theorem pickNode_moves (passing : List Fsm.Node) : (pickNode passing).Moves r := by
  refine .bind (draws _) fun i => ?_
  split
  · exact .pure _
  · exact .stop _

theorem reassignGroups_moves
    (edits : ∀ (row : Obj Fsm.Group) f, (GroupRef.edit ⟨some row.addr, row.val⟩ f).Moves r)
    (registers : ∀ group, (raftApply lower (.registerGroup group)).Moves r)
    (passing : List Fsm.Node) (groups : List (Obj Fsm.Group)) :
    (reassignGroups lower passing groups).Moves r := by
  induction groups with
  | nil => exact .pure _
  | cons row groups ih =>
    refine .bind (pickNode_moves draws passing) fun node => ?_
    refine .bind (edits _ _) fun group => ?_
    exact .bind (registers _) fun _ => ih

theorem reassignPartitions_moves
    (registers : ∀ p, (raftApply lower (.registerPartition p)).Moves r)
    (failed : Int32) (passing : List Fsm.Node) (partitions : List Fsm.Partition) :
    (reassignPartitions lower failed passing partitions).Moves r := by
  induction partitions with
  | nil => exact .pure _
  | cons p partitions ih =>
    refine .bind (pickNode_moves draws passing) fun node => ?_
    refine .bind (registers _) fun _ => ?_
    exact .bind ih fun _ => .pure _

end

end Jocko.Broker
