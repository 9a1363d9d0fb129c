import Jocko.Broker.Cluster
import Jocko.Commitlog.Log

namespace Jocko.Broker

open Go MemDB Fsm Protocol Cluster

/-- A `*Replica`. Its log and its replicator are held by reference. -/
structure Replica where
  brokerID : Int32
  partition : Fsm.Partition
  isLocal : Bool
  log : Option Nat
  replicator : Option Nat

/-- A `*Replicator`: the replica that it fills, the broker that it fetches from, whether its
two goroutines were started, and whether its `done` channel is closed. -/
structure Replicator where
  replica : Nat
  leader : Str
  started : Bool
  closed : Bool

end Jocko.Broker

namespace Jocko

open Go Broker

/-- A broker with what it shares and what it keeps on its own machine. Logs, replicas and
replicators are objects that are named by their place. `late` decides which of the calls that
have a time limit miss it. -/
structure Broker where
  cluster : Cluster
  dataDir : String
  devMode : Bool
  members : Nat
  controller : Bool
  late : Nat → Bool
  waited : Nat
  disk : Disk
  segs : List Commitlog.Segment
  logs : List Commitlog.CommitLog
  replicas : List Replica
  lookup : List ((Str × Int32) × Nat)
  replicators : List Replicator

end Jocko

namespace Jocko.Broker

open Go MemDB Fsm Protocol Cluster

variable {α : Type}

def onCluster (call : Call Cluster α) : Call Broker α :=
  zoom (fun b => b.cluster) (fun b cluster => { b with cluster }) call

def nilPointer : Stop := .panic "invalid memory address or nil pointer dereference"

/-- The machine as the methods of one log see it. -/
def world (b : Broker) (log : Commitlog.CommitLog) : Commitlog.World := ⟨b.disk, b.segs, log⟩

/-- What a method of a log leaves. -/
def setWorld (b : Broker) (r : Nat) (w : Commitlog.World) : Broker :=
  { b with disk := w.disk, segs := w.segs, logs := b.logs.set r w.log }

/-- Call a method of a log. -/
def onLog (r : Nat) (call : Call Commitlog.World α) : Call Broker α := ⟨fun b =>
  match b.logs[r]? with
  | none => .error nilPointer b
  | some log =>
    match call.run (b.world log) with
    | .ok value w => .ok value (b.setWorld r w)
    | .error why w => .error why (b.setWorld r w)⟩

/-- A log that has not been opened. -/
def blankLog : Commitlog.CommitLog := ⟨⟨"", 0, 0, ""⟩, .delete 0, [], 0⟩

/-- `commitlog.New` -/
def newLog (opts : Commitlog.Options) : Call Broker Nat := ⟨fun b =>
  match (Commitlog.new opts).run (b.world blankLog) with
  | .ok _ w => .ok b.logs.length { b with
      disk := w.disk
      segs := w.segs
      logs := b.logs ++ [w.log] }
  | .error why w => .error why { b with disk := w.disk, segs := w.segs }⟩

def getReplica (r : Nat) : Call Broker Replica := ⟨fun b =>
  match b.replicas[r]? with
  | some replica => .ok replica b
  | none => .error nilPointer b⟩

def setReplica (r : Nat) (replica : Replica) : Call Broker Unit := ⟨fun b =>
  .ok () { b with replicas := b.replicas.set r replica }⟩

def newReplica (replica : Replica) : Call Broker Nat := ⟨fun b =>
  .ok b.replicas.length { b with replicas := b.replicas ++ [replica] }⟩

/-- `replicaLookup.AddReplica` -/
def addReplica (topic : Str) (id : Int32) (r : Nat) : Call Broker Unit := ⟨fun b =>
  .ok () { b with lookup := ((topic, id), r) :: b.lookup.filter fun e => e.1 ≠ (topic, id) }⟩

/-- `replicaLookup.Replica` -/
def findReplica (topic : Str) (partition : Int32) : Call Broker (Option Nat) := ⟨fun b =>
  .ok (b.lookup.lookup (topic, partition)) b⟩

/-- `NewReplicator` -/
def newReplicator (r : Nat) (leader : Str) : Call Broker Nat := ⟨fun b =>
  .ok b.replicators.length { b with replicators := b.replicators ++ [⟨r, leader, false, false⟩] }⟩

/-- `Replicator.Replicate` -/
def replicate (k : Nat) : Call Broker Unit := ⟨fun b =>
  .ok () { b with replicators := b.replicators.modify k fun x => { x with started := true } }⟩

/-- `Replicator.Close` -/
def closeReplicator (k : Nat) : Call Broker Unit := ⟨fun b =>
  match b.replicators[k]? with
  | none => .error nilPointer b
  | some x =>
    if x.closed then .error (.panic "close of closed channel") b
    else .ok () { b with replicators := b.replicators.set k { x with closed := true } }⟩

/-- `filepath.Join(dataDir, "data", fmt.Sprintf("%d", id))` for a clean `dataDir`. -/
def logDir (dataDir : String) (id : Int32) : String :=
  (if dataDir = "" then "" else dataDir ++ "/") ++ "data/" ++ String.ofList (sprintfd id.toInt)

def toText (s : Str) : String := String.ofList (s.map fun b => Char.ofNat b.toNat)

section

variable (lower : Str → Str)

def startReplica (r : Nat) : Call Broker ErrorCode := do
  let replica ← getReplica r
  let s ← onCluster state
  match (s.getTopic lower replica.partition.topic).2 with
  | none => return .unknownTopicOrPartition
  | some topic =>
    if replica.log.isSome then return .none
    else
      match getValue topic.val.config (ascii "cleanup.policy") with
      | some (.string policy) =>
        let dataDir ← ⟨fun b => .ok b.dataDir b⟩
        match ← attempt (newLog ⟨logDir dataDir replica.partition.id, 1024, -1, toText policy⟩) with
        | .error _ => return .unknown
        | .ok log => do
          setReplica r { replica with log := some log }
          return .none
      | _ => stop (.panic "interface conversion")

/-- Close the replicator of a replica, if it has one. -/
def stopReplicator (replica : Replica) : Call Broker Unit :=
  match replica.replicator with
  | some k => closeReplicator k
  | none => return ()

def becomeFollower (r : Nat) (cmd : PartitionState) : Call Broker ErrorCode := do
  let replica ← getReplica r
  stopReplicator replica
  match replica.log with
  | none => stop nilPointer
  | some log =>
    let hw ← onLog log Commitlog.newestOffset
    match ← attempt (onLog log (Commitlog.truncate hw)) with
    | .error _ => return .unknown
    | .ok _ =>
      match ← onCluster (brokerByID cmd.leader) with
      | none => return .brokerNotAvailable
      | some broker =>
        match ← attempt (onCluster reach) with
        | .error _ => return .unknown
        | .ok _ => do
          let k ← newReplicator r broker.brokerAddr
          setReplica r { replica with replicator := some k }
          if ← ⟨fun b => .ok b.devMode b⟩ then return .none
          else
            replicate k
            return .none

def becomeLeader (r : Nat) (cmd : PartitionState) : Call Broker ErrorCode := do
  let replica ← getReplica r
  stopReplicator replica
  setReplica r { replica with
    replicator := none
    partition := { replica.partition with
      leader := cmd.leader
      ar := cmd.replicas
      isr := cmd.isr
      leaderEpoch := cmd.zkVersion } }
  return .none

/-- Start the replica, then give it its role. -/
def assume (r : Nat) (become : Call Broker ErrorCode) : Call Broker ErrorCode := do
  match ← startReplica lower r with
  | .none => become
  | code => return code

/-- The replica that is made for a state, whatever there is already. -/
def stateReplica (id : Int32) (p : PartitionState) : Replica :=
  ⟨id, ⟨p.partition, p.partition, p.topic, p.isr, p.replicas, p.leader, p.zkVersion, p.leaderEpoch,
    0, 0⟩, true, none, none⟩

/-- Lead or follow, if the state asks this broker for either. -/
def takeRole (id : Int32) (r : Nat) (p : PartitionState) : Call Broker ErrorCode :=
  if p.leader = id then assume lower r (becomeLeader r p)
  else if id ∈ p.replicas then assume lower r (becomeFollower r p)
  else return .none

/-- One round of the loop in `handleLeaderAndISR`. -/
def handleState (p : PartitionState) : Call Broker LeaderAndISRPartition := do
  let id ← onCluster configID
  let r ← newReplica (stateReplica id p)
  addReplica p.topic p.partition r
  let code ← takeRole lower id r p
  return ⟨p.topic, p.partition, code.code⟩

def handleStates : List PartitionState → Call Broker (List LeaderAndISRPartition)
  | [] => return []
  | p :: states => do
    let first ← handleState lower p
    return first :: (← handleStates states)

def handleLeaderAndISR (req : LeaderAndISRRequest) : Call Broker LeaderAndISRResponse := do
  let partitions ← handleStates lower req.partitionStates
  return ⟨req.apiVersion, 0, partitions⟩

end

end Jocko.Broker
