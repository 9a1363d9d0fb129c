import Jocko.Broker.Replicas

namespace Jocko.Broker

open Go MemDB Fsm Protocol Cluster

/-- The broker at a place of the ring, which starts again behind its end. -/
def ringID (brokers : List MetaBroker) (place : Nat) : Int32 :=
  (brokers[place % brokers.length]?.map MetaBroker.id).getD 0

/-- The leader at a place of the ring and the brokers behind it. -/
def ringReplicas (brokers : List MetaBroker) (place followers : Nat) : List Int32 :=
  (List.range (followers + 1)).map fun k => ringID brokers (place + k)

/-- The loop of `buildPartitions`: how many partitions are still to be made, the number of the
next one, and the place in the ring. -/
def buildLoop (topic : Str) (brokers : List MetaBroker) (followers : Nat) :
    Nat → Nat → Nat → Call Cluster (List Fsm.Partition)
  | 0, _, _ => return []
  | left + 1, i, place => do
    let place := place + (← intn brokers.length)
    let replicas := ringReplicas brokers place followers
    let partition : Fsm.Partition := {
      id := Int32.ofNat i
      partition := Int32.ofNat i
      topic
      isr := replicas
      ar := replicas
      leader := ringID brokers place
      controllerEpoch := 0
      leaderEpoch := 0
      createIndex := 0
      modifyIndex := 0 }
    return partition :: (← buildLoop topic brokers followers left (i + 1) (place + followers))

/-- `replicationFactor - 1` is computed in 16 bits. -/
def buildPartitions (topic : Str) (partitionsCount : Int32) (replicationFactor : Int16) :
    Call Cluster (Except ErrorCode (List Fsm.Partition)) := do
  let brokers ← brokers
  if (brokers.length : Int) < replicationFactor.toInt then
    return .error .invalidReplicationFactor
  else
    let partitions ← buildLoop topic brokers (replicationFactor - 1).toInt.toNat
      partitionsCount.toInt.toNat 0 0
    return .ok partitions

/-- The replicas of the partitions, by their numbers. -/
def assignment (ps : List Fsm.Partition) : List (Int32 × List Int32) :=
  ps.foldl (fun m p => (p.id, p.ar) :: m.filter fun e => e.1 ≠ p.id) []

/-- The topic that `createTopic` registers. -/
def newTopic (topic : Str) (ps : List Fsm.Partition) : Fsm.Topic :=
  ⟨[], topic, some (assignment ps), none, false, 0, 0⟩

/-- What the brokers are told of a new partition. -/
def createdState (p : Fsm.Partition) : PartitionState :=
  ⟨p.topic, p.id, 0, p.leader, 0, p.isr, 0, p.ar, false⟩

section

variable (lower : Str → Str)

def createPartitions : List Fsm.Partition → Call Cluster Unit
  | [] => return ()
  | p :: ps => do
    let _ ← raftApply lower (.registerPartition p)
    createPartitions ps

/-- The loop that tells the brokers, this one without a connection. -/
def announce (req : LeaderAndISRRequest) : List MetaBroker → Call Broker Unit
  | [] => return ()
  | broker :: brokers => do
    if broker.id = (← onCluster configID) then
      let res ← handleLeaderAndISR lower req
      if res.errorCode ≠ ErrorCode.none.code then stop (.panic "handling leader and isr error")
      else announce req brokers
    else
      onCluster reach
      onCluster (sendLeaderAndISR broker.brokerAddr req)
      announce req brokers

/-- `createTopic` once the partitions are known. -/
def registerTopic (topic : Str) (ps : List Fsm.Partition) : Call Broker ErrorCode := do
  match ← attempt (onCluster (raftApply lower (.registerTopic (newTopic topic ps)))) with
  | .error _ => return .unknown
  | .ok _ =>
    match ← attempt (onCluster (createPartitions lower ps)) with
    | .error _ => return .unknown
    | .ok _ =>
      let req : LeaderAndISRRequest := ⟨0, ← onCluster configID, 0, ps.map createdState, []⟩
      match ← attempt (announce lower req (← onCluster brokers)) with
      | .error _ => return .unknown
      | .ok _ => return .none

def createTopic (topic : CreateTopicRequest) : Call Broker ErrorCode := do
  let s ← onCluster state
  if (s.getTopic lower topic.topic).2.isSome then return .topicAlreadyExists
  else
    match ← onCluster (buildPartitions topic.topic topic.numPartitions topic.replicationFactor) with
    | .error code => return code
    | .ok ps => registerTopic lower topic.topic ps

def deleteTopic (topic : Str) : Call Broker ErrorCode := do
  match ← attempt (onCluster (raftApply lower
      (.deregisterTopic ⟨[], topic, none, none, false, 0, 0⟩))) with
  | .error _ => return .unknown
  | .ok _ => return .none

end

/-- `withTimeout` where `fn` is done before its caller goes on, also if nobody waits for it or the
timer fires first: then its result is thrown away. `Timeout` and `TopicJobs` have the schedules in
which it is not. -/
def withTimeout (timeout : Int) (fn : Call Broker ErrorCode) : Call Broker ErrorCode := do
  let code ← fn
  if timeout ≤ 0 then return .none
  else
    let late ← ⟨fun b => .ok (b.late b.waited) { b with waited := b.waited + 1 }⟩
    if late then return .requestTimedOut else return code

section

variable (lower : Str → Str)

/-- One round of the loop in `handleCreateTopic`. The number of members is converted to 16
bits before it is compared. -/
def handleCreate (timeout : Int) (req : CreateTopicRequest) : Call Broker TopicErrorCode := do
  let controller ← ⟨fun b => .ok b.controller b⟩
  if ¬ controller then return ⟨req.topic, ErrorCode.notController.code, none⟩
  else
    let members ← ⟨fun b => .ok (Int16.ofNat b.members) b⟩
    if members < req.replicationFactor then
      return ⟨req.topic, ErrorCode.invalidReplicationFactor.code, none⟩
    else
      let code ← withTimeout timeout (createTopic lower req)
      return ⟨req.topic, code.code, none⟩

def handleCreates (timeout : Int) : List CreateTopicRequest → Call Broker (List TopicErrorCode)
  | [] => return []
  | req :: requests => do
    let first ← handleCreate lower timeout req
    return first :: (← handleCreates timeout requests)

def handleCreateTopic (reqs : CreateTopicRequests) : Call Broker CreateTopicsResponse := do
  let codes ← handleCreates lower reqs.timeout reqs.requests
  return ⟨reqs.apiVersion, 0, codes⟩

/-- One round of the loop in `handleDeleteTopics`. -/
def handleDelete (timeout : Int) (topic : Str) : Call Broker TopicErrorCode := do
  let controller ← ⟨fun b => .ok b.controller b⟩
  if ¬ controller then return ⟨topic, ErrorCode.notController.code, none⟩
  else
    let code ← withTimeout timeout (deleteTopic lower topic)
    return ⟨topic, code.code, none⟩

def handleDeletes (timeout : Int) : List Str → Call Broker (List TopicErrorCode)
  | [] => return []
  | topic :: topics => do
    let first ← handleDelete lower timeout topic
    return first :: (← handleDeletes timeout topics)

def handleDeleteTopics (reqs : DeleteTopicsRequest) : Call Broker DeleteTopicsResponse := do
  let codes ← handleDeletes lower reqs.timeout reqs.topics
  return ⟨reqs.apiVersion, 0, codes⟩

end

end Jocko.Broker
