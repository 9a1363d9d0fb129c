import Jocko.Broker.Membership
import Jocko.Broker.Records
import Jocko.Protocol.Responses

namespace Jocko.Broker

open Go MemDB Fsm Protocol Cluster

/-- What a handler takes from outside of the broker: the client and a new UUID, the clock for each
partition of a produce request, the members of the ring, and the configured number of replicas of
the offsets topic. -/
structure Surroundings where
  clientID : Str
  uuid : Str
  now : Nat → Nat → Int
  members : List Member
  offsetsTopicReplicationFactor : Int16

/-- `Broker.Host` and `Broker.Port` of package `metadata`. -/
def MetaBroker.hostPort (m : MetaBroker) : Except Stop (Str × Int32) :=
  match splitHostPort m.brokerAddr with
  | none => .error (.panic "address")
  | some (host, portStr) =>
    match atoiStr portStr with
    | none => .error (.panic "strconv.Atoi")
    | some port => .ok (host, Int32.ofInt port)

/-- `withTimeout` around a function that also writes to the response. -/
def timed {α : Type} (timeout : Int) (fn : Call Broker (ErrorCode × α)) :
    Call Broker (ErrorCode × α) := do
  let (code, written) ← fn
  if timeout ≤ 0 then return (.none, written)
  else
    let late ← ⟨fun b => .ok (b.late b.waited) { b with waited := b.waited + 1 }⟩
    return (if late then .requestTimedOut else code, written)

section Produce

variable (lower : Str → Str) (hash : Bytes → UInt64)

def handleData (timeout : Int) (topic : Str) (now : Nat → Int) :
    Nat → List Data → Call Broker (List ProducePartitionResponse)
  | _, [] => return []
  | j, p :: data => do
    let (code, ends) ← timed timeout do
      let ends ← produce lower hash topic p
      return (ends.1, ends)
    let pres :=
      { recordProduced (now j) p.partition ends (blankProduced p) with errorCode := code.code }
    return pres :: (← handleData timeout topic now (j + 1) data)

def handleTopicData (timeout : Int) (now : Nat → Nat → Int) :
    Nat → List TopicData → Call Broker (List ProduceTopicResponse)
  | _, [] => return []
  | i, td :: topics => do
    let tres ← handleData lower hash timeout td.topic (now i) 0 td.data
    return ⟨td.topic, tres⟩ :: (← handleTopicData timeout now (i + 1) topics)

def handleProduce (now : Nat → Nat → Int) (req : ProduceRequest) : Call Broker ProduceResponse := do
  let responses ← handleTopicData lower hash req.timeout now 0 req.topicData
  return ⟨req.apiVersion, responses, 0⟩

end Produce

section Fetch

def handlePartitions (r : FetchRequest) (topic : Str) :
    List FetchPartition → Call Broker (List FetchPartitionResponse)
  | [] => return []
  | p :: partitions => do
    let (code, found) ← timed r.maxWaitTime (fetch r.minBytes topic p)
    let (highWatermark, recordSet) := found.getD (0, none)
    let fpres := ⟨p.partition, code.code, highWatermark, 0, [], recordSet⟩
    return fpres :: (← handlePartitions r topic partitions)

def handleFetchTopics (r : FetchRequest) : List FetchTopic → Call Broker (List FetchTopicResponse)
  | [] => return []
  | topic :: topics => do
    let partitionResponses ← handlePartitions r topic.topic topic.partitions
    return ⟨topic.topic, partitionResponses⟩ :: (← handleFetchTopics r topics)

def handleFetch (r : FetchRequest) : Call Broker FetchResponse := do
  let responses ← handleFetchTopics r r.topics
  return ⟨r.apiVersion, 0, responses⟩

end Fetch

section Offsets

/-- One round of the inner loop of `handleOffsets`. A partition without a replica is left out of
the response, and the offset is only set in the field of version 0. -/
def handleOffset (topic : Str) (p : OffsetsPartition) :
    Call Broker (Option PartitionResponse) := do
  match ← findReplica topic p.partition with
  | none => return none
  | some r =>
    match (← getReplica r).log with
    | none => stop nilPointer
    | some log =>
      let offset ← onLog log
        (if p.timestamp = -2 then Commitlog.oldestOffset else Commitlog.newestOffset)
      return some ⟨p.partition, 0, zeroTime, [offset], 0⟩

def handleOffsetPartitions (topic : Str) :
    List OffsetsPartition → Call Broker (List PartitionResponse)
  | [] => return []
  | p :: partitions => do
    let pres ← handleOffset topic p
    return pres.toList ++ (← handleOffsetPartitions topic partitions)

def handleOffsetTopics : List OffsetsTopic → Call Broker (List OffsetResponse)
  | [] => return []
  | t :: topics => do
    let partitionResponses ← handleOffsetPartitions t.topic t.partitions
    return ⟨t.topic, partitionResponses⟩ :: (← handleOffsetTopics topics)

def handleOffsets (req : OffsetsRequest) : Call Broker OffsetsResponse := do
  let responses ← handleOffsetTopics req.topics
  return ⟨req.apiVersion, 0, responses⟩

end Offsets

section Metadata

/-- The brokers of the ring that are alive. -/
def liveBrokers : List Member → Except Stop (List Protocol.Broker)
  | [] => .ok []
  | mem :: members =>
    if mem.status ≠ .alive then liveBrokers members
    else
      match isBroker mem.toSerfMember with
      | none => liveBrokers members
      | some m => do
        let (host, port) ← m.hostPort
        let brokers ← liveBrokers members
        return ⟨m.id, host, port⟩ :: brokers

variable (lower : Str → Str)

def partitionMetadata (s : Store) (topic : Str) (id : Int32) : PartitionMetadata :=
  match (s.getPartition lower topic id).2 with
  | none => ⟨ErrorCode.unknownTopicOrPartition.code, id, 0, [], []⟩
  | some p => ⟨ErrorCode.none.code, p.val.id, p.val.leader, p.val.ar, p.val.isr⟩

def topicMetadata (s : Store) (topic : Fsm.Topic) : TopicMetadata :=
  ⟨ErrorCode.none.code, topic.topic,
    topic.partitions.entries.map fun e => partitionMetadata lower s topic.topic e.1⟩

def namedMetadata (s : Store) (name : Str) : TopicMetadata :=
  match (s.getTopic lower name).2 with
  | none => ⟨ErrorCode.unknownTopicOrPartition.code, name, []⟩
  | some topic => topicMetadata lower s topic.val

/-- A request without names asks for all topics. The check of each node is looked at first, and
nothing is done with it. -/
def handleMetadata (members : List Member) (req : MetadataRequest) :
    Call Broker MetadataResponse := do
  let s ← onCluster state
  if (s.getNodes lower).2.any fun n => n.val.check.isNone then stop nilPointer
  else
    let brokers ← lift (liveBrokers members)
    let topics := if req.topics = [] then
        (s.getTopics lower).2.map fun topic => topicMetadata lower s topic.val
      else req.topics.map (namedMetadata lower s)
    return ⟨req.apiVersion, brokers, 0, topics⟩

end Metadata

section Coordinator

variable (lower : Str → Str) (hash : Bytes → UInt64)

def offsetsTopicName : Str := ascii "__consumer_offsets"

/-- `offsetsTopic`, with none for an error. The partitions are registered even if the topic could
not be. -/
def offsetsTopic (replicationFactor : Int16) : Call Broker (Option Fsm.Topic) := do
  let s ← onCluster state
  match (s.getTopic lower offsetsTopicName).2 with
  | some topic => return some topic.val
  | none =>
    match ← onCluster (buildPartitions offsetsTopicName 50 replicationFactor) with
    | .error _ => return none
    | .ok partitions =>
      let topic : Fsm.Topic := ⟨[], offsetsTopicName,
        some (assignment (partitions.map fun p => { p with id := p.partition })), none, true,
        0, 0⟩
      let applied ← attempt (onCluster (raftApply lower (.registerTopic topic)))
      match ← attempt (onCluster (createPartitions lower partitions)) with
      | .error _ => return none
      | .ok _ =>
        match applied with
        | .error _ => return none
        | .ok _ => return some topic

def handleFindCoordinator (replicationFactor : Int16) (req : FindCoordinatorRequest) :
    Call Broker FindCoordinatorResponse := do
  let res : FindCoordinatorResponse := ⟨req.apiVersion, 0, 0, none, ⟨0, [], 0⟩⟩
  match ← offsetsTopic lower replicationFactor with
  | none => return { res with errorCode := ErrorCode.unknown.code }
  | some topic =>
    let count := topic.partitions.entries.length
    if count = 0 then stop (.panic "integer divide by zero")
    else
      let i := Int32.ofNat ((hash req.coordinatorKey).toNat % count)
      let s ← onCluster state
      match (s.getPartition lower offsetsTopicName i).2 with
      | none => return { res with errorCode := ErrorCode.unknownTopicOrPartition.code }
      | some p =>
        match ← onCluster (brokerByID p.val.leader) with
        | none => stop nilPointer
        | some broker =>
          let (host, port) ← lift broker.hostPort
          return { res with coordinator := ⟨broker.id, host, port⟩ }

end Coordinator

section Groups

variable (lower : Str → Str)

def handleHeartbeat (r : HeartbeatRequest) : Call Broker HeartbeatResponse := do
  match ← onCluster (getGroup lower r.groupID) with
  | none => return ⟨r.apiVersion, 0, ErrorCode.invalidGroupId.code⟩
  | some _ => return ⟨r.apiVersion, 0, ErrorCode.none.code⟩

def handleListGroups (req : ListGroupsRequest) : Call Broker ListGroupsResponse := do
  let s ← onCluster state
  let groups := (s.getGroups lower).2.map fun group =>
    (⟨group.val.group, ascii "consumer"⟩ : ListGroup)
  return ⟨req.apiVersion, 0, 0, groups⟩

/-- The loop of `handleDescribeGroups`, which adds no group to the response: `append` is called
without one. The map of the members is nil, so that the first member of a group ends it. -/
def describeGroups : List Str → Call Broker Unit
  | [] => return ()
  | groupID :: groupIDs => do
    match ← onCluster (getGroup lower groupID) with
    | none => stop nilPointer
    | some g =>
      if g.val.members.entries = [] then describeGroups groupIDs
      else stop (.panic "assignment to entry in nil map")

def handleDescribeGroups (req : DescribeGroupsRequest) : Call Broker DescribeGroupsResponse := do
  describeGroups lower req.groupIDs
  return ⟨req.apiVersion, 0, []⟩

/-- What an answer about the group `id` has to say: the members that are stored, or that there is
no such group. -/
def Described (s : Store) (id : Str) (group : Protocol.Group) : Prop :=
  group.groupID = id ∧
    match (s.getGroup lower id).2 with
    | none => group.errorCode ≠ 0 ∨ group.groupMembers.entries = []
    | some g => ∀ memberID,
      (group.groupMembers.get? memberID).map
          (fun m => (m.groupMemberMetadata, m.groupMemberAssignment)) =
        (g.val.members.get? memberID).map fun m => (m.metadata, m.assignment)

/-- Only a request without groups is answered. -/
theorem handleDescribeGroups_described_iff (req : DescribeGroupsRequest) (b : Broker) :
    (∃ res b', (handleDescribeGroups lower req).run b = .ok res b' ∧
      List.Forall₂ (Described lower b.cluster.fsm) req.groupIDs res.groups) ↔
      req.groupIDs = [] := by
  constructor
  · rintro ⟨res, b', returned, described⟩
    obtain ⟨_, _, _, made⟩ := bind_eq_ok returned
    cases made
    exact List.forall₂_nil_right_iff.mp described
  · intro none
    refine ⟨⟨req.apiVersion, 0, []⟩, b, ?_, none ▸ .nil⟩
    rw [handleDescribeGroups, none]
    rfl

/-- Whatever is stored, one group asked for is not described. -/
theorem handleDescribeGroups_undescribed :
    ¬ ∃ (b : Broker) (res : DescribeGroupsResponse) (b' : Broker),
      (handleDescribeGroups id ⟨0, [ascii "g"]⟩).run b = .ok res b' ∧
        List.Forall₂ (Described id b.cluster.fsm) [ascii "g"] res.groups := by
  rintro ⟨b, res, b', returned, described⟩
  obtain ⟨_, _, _, made⟩ := bind_eq_ok returned
  cases made
  cases described

/-- A response for each topic, with nothing in it. -/
def handleOffsetFetch (req : OffsetFetchRequest) : Call Broker OffsetFetchResponse :=
  return ⟨req.apiVersion, req.topics.map fun _ => ⟨[], []⟩⟩

end Groups

/-- The global `apiVersions`, which every request is answered with. -/
def handleAPIVersions (_req : APIVersionsRequest) : Call Broker APIVersionsResponse :=
  return ⟨0, 0, offeredVersions, 0⟩

/-- The switch in `Broker.Run`. -/
def respond (lower : Str → Str) (hash : Bytes → UInt64) (outside : Surroundings) :
    (kind : RequestKind) → kind.Body → Call Broker ResponseBody
  | .produce, req => do
    let res ← handleProduce lower hash outside.now req
    return .of res.apiVersion res.puts ProduceResponse.decode
  | .fetch, req => do
    let res ← handleFetch req
    return .of res.apiVersion res.puts FetchResponse.decode
  | .offsets, req => do
    let res ← handleOffsets req
    return .of res.apiVersion res.puts OffsetsResponse.decode
  | .metadata, req => do
    let res ← handleMetadata lower outside.members req
    return .of res.apiVersion res.puts MetadataResponse.decode
  | .leaderAndISR, req => do
    let res ← handleLeaderAndISR lower req
    return .of res.apiVersion res.puts LeaderAndISRResponse.decode
  | .stopReplica, _ => stop (.panic "not implemented: stop replica")
  | .updateMetadata, _ => stop (.panic "not implemented: update metadata")
  | .controlledShutdown, _ => stop (.panic "not implemented: controlled shutdown")
  | .offsetCommit, _ => stop (.panic "not implemented: offset commit")
  | .offsetFetch, req => do
    let res ← handleOffsetFetch req
    return .of res.apiVersion res.puts OffsetFetchResponse.decode
  | .findCoordinator, req => do
    let res ← handleFindCoordinator lower hash outside.offsetsTopicReplicationFactor req
    return .of res.apiVersion res.puts FindCoordinatorResponse.decode
  | .joinGroup, req => do
    let res ← onCluster (handleJoinGroup lower outside.clientID outside.uuid req)
    return .of res.apiVersion res.puts JoinGroupResponse.decode
  | .heartbeat, req => do
    let res ← handleHeartbeat lower req
    return .of res.apiVersion res.puts HeartbeatResponse.decode
  | .leaveGroup, req => do
    let res ← onCluster (handleLeaveGroup lower req)
    return .of res.apiVersion res.puts LeaveGroupResponse.decode
  | .syncGroup, req => do
    let res ← onCluster (handleSyncGroup lower req)
    return .of res.apiVersion res.puts SyncGroupResponse.decode
  | .describeGroups, req => do
    let res ← handleDescribeGroups lower req
    return .of res.apiVersion res.puts DescribeGroupsResponse.decode
  | .listGroups, req => do
    let res ← handleListGroups lower req
    return .of res.apiVersion res.puts ListGroupsResponse.decode
  | .saslHandshake, _ => stop (.panic "not implemented: sasl handshake")
  | .apiVersions, req => do
    let res ← handleAPIVersions req
    return .of res.apiVersion res.puts APIVersionsResponse.decode
  | .createTopics, req => do
    let res ← handleCreateTopic lower req
    return .of res.apiVersion res.puts CreateTopicsResponse.decode
  | .deleteTopics, req => do
    let res ← handleDeleteTopics lower req
    return .of res.apiVersion res.puts DeleteTopicsResponse.decode

end Jocko.Broker
