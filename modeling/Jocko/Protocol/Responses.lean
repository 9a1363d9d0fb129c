import Jocko.Protocol.Parsing
import Jocko.Protocol.Requests

namespace Jocko.Protocol

open Go ByteDecoder List

section Offsets

/-- `timestamp` is a `time.Time` as nanoseconds from the Unix epoch. -/
structure PartitionResponse where
  partition : Int32
  errorCode : Int16
  timestamp : Int
  offsets : List Int
  offset : Int

structure OffsetResponse where
  topic : Str
  partitionResponses : List PartitionResponse

structure OffsetsResponse where
  apiVersion : Int16
  throttleTime : Int
  responses : List OffsetResponse

def PartitionResponse.puts (version : Int16) (p : PartitionResponse) : List Put :=
  [.int32 p.partition, .int16 p.errorCode] ++
    (if version = 0 then [.int64Array p.offsets] else []) ++
    (if 1 ≤ version then [.int64 (unixMillis p.timestamp), .int64 p.offset] else [])

def OffsetResponse.puts (version : Int16) (r : OffsetResponse) : List Put :=
  [.string r.topic, .arrayLength r.partitionResponses.length] ++
    r.partitionResponses.flatMap (PartitionResponse.puts version)

/-- `OffsetsResponse.Encode` -/
def OffsetsResponse.puts (r : OffsetsResponse) : List Put :=
  (if 2 ≤ r.apiVersion then [.int32 (millis r.throttleTime)] else []) ++
    [.arrayLength r.responses.length] ++ r.responses.flatMap (OffsetResponse.puts r.apiVersion)

def PartitionResponse.decode (version : Int16) : Call ByteDecoder PartitionResponse := do
  let partition ← int32
  let errorCode ← int16
  let offsets ← when (version = 0) int64Array []
  let timestamp ← when (1 ≤ version) (do return timeOfMillis (← int64)) zeroTime
  let offset ← when (1 ≤ version) int64 0
  return { partition, errorCode, timestamp, offsets, offset }

def OffsetResponse.decode (version : Int16) : Call ByteDecoder OffsetResponse := do
  let topic ← string
  let partitionResponses ← array (PartitionResponse.decode version)
  return { topic, partitionResponses }

/-- `OffsetsResponse.Decode`, which does not set the version. -/
def OffsetsResponse.decode (version : Int16) : Call ByteDecoder OffsetsResponse := do
  let throttleTime ← when (2 ≤ version) (do return ofMillis (← int32)) 0
  let responses ← array (OffsetResponse.decode version)
  return { apiVersion := 0, throttleTime, responses }

end Offsets

section FindCoordinator

structure Coordinator where
  nodeID : Int32
  host : Str
  port : Int32

structure FindCoordinatorResponse where
  apiVersion : Int16
  throttleTime : Int
  errorCode : Int16
  errorMessage : Option Str
  coordinator : Coordinator

/-- `FindCoordinatorResponse.Encode` -/
def FindCoordinatorResponse.puts (r : FindCoordinatorResponse) : List Put :=
  (if 1 ≤ r.apiVersion then [.int32 (millis r.throttleTime)] else []) ++ [.int16 r.errorCode] ++
    (if 1 ≤ r.apiVersion then [.nullableString r.errorMessage] else []) ++
    [.int32 r.coordinator.nodeID, .string r.coordinator.host, .int32 r.coordinator.port]

/-- `FindCoordinatorResponse.Decode` -/
def FindCoordinatorResponse.decode (version : Int16) :
    Call ByteDecoder FindCoordinatorResponse := do
  let throttleTime ← when (1 ≤ version) (do return ofMillis (← int32)) 0
  let errorCode ← int16
  let errorMessage ← when (1 ≤ version) nullableString none
  let nodeID ← int32
  let host ← string
  let port ← int32
  return { apiVersion := version, throttleTime, errorCode, errorMessage,
           coordinator := { nodeID, host, port } }

end FindCoordinator

section Groups

/-- `LeaveGroupResponse.Encode` -/
def LeaveGroupResponse.puts (r : LeaveGroupResponse) : List Put :=
  (if 1 ≤ r.apiVersion then [.int32 (millis r.throttleTime)] else []) ++ [.int16 r.errorCode]

/-- `LeaveGroupResponse.Decode` -/
def LeaveGroupResponse.decode (version : Int16) : Call ByteDecoder LeaveGroupResponse := do
  let throttleTime ← when (1 ≤ version) (do return ofMillis (← int32)) 0
  let errorCode ← int16
  return { apiVersion := version, throttleTime, errorCode }

/-- `SyncGroupResponse.Encode` -/
def SyncGroupResponse.puts (r : SyncGroupResponse) : List Put :=
  (if 1 ≤ r.apiVersion then [.int32 (millis r.throttleTime)] else []) ++
    [.int16 r.errorCode, .bytes r.memberAssignment]

/-- `SyncGroupResponse.Decode` -/
def SyncGroupResponse.decode (version : Int16) : Call ByteDecoder SyncGroupResponse := do
  let throttleTime ← when (1 ≤ version) (do return ofMillis (← int32)) 0
  let errorCode ← int16
  let memberAssignment ← bytes
  return { apiVersion := version, throttleTime, errorCode, memberAssignment }

structure GroupMember where
  clientID : Str
  clientHost : Str
  groupMemberMetadata : Option Bytes
  groupMemberAssignment : Option Bytes

structure Group where
  errorCode : Int16
  groupID : Str
  state : Str
  protocolType : Str
  protocol : Str
  groupMembers : GoMap Str GroupMember

structure DescribeGroupsResponse where
  apiVersion : Int16
  throttleTime : Int
  groups : List Group

def GroupMember.puts (r : GroupMember) : List Put :=
  [.string r.clientID, .string r.clientHost, .bytes r.groupMemberMetadata,
    .bytes r.groupMemberAssignment]

def Group.puts (r : Group) : List Put :=
  [.int16 r.errorCode, .string r.groupID, .string r.state, .string r.protocolType,
    .string r.protocol, .arrayLength r.groupMembers.entries.length] ++
    r.groupMembers.entries.flatMap fun e => .string e.1 :: e.2.puts

/-- `DescribeGroupsResponse.Encode` -/
def DescribeGroupsResponse.puts (r : DescribeGroupsResponse) : List Put :=
  (if 1 ≤ r.apiVersion then [.int32 (millis r.throttleTime)] else []) ++
    [.arrayLength r.groups.length] ++ r.groups.flatMap Group.puts

def GroupMember.decode : Call ByteDecoder GroupMember := do
  let clientID ← string
  let clientHost ← string
  let groupMemberMetadata ← bytes
  let groupMemberAssignment ← bytes
  return { clientID, clientHost, groupMemberMetadata, groupMemberAssignment }

def Group.member : Call ByteDecoder (Str × GroupMember) := do
  let memberID ← string
  let member ← GroupMember.decode
  return (memberID, member)

/-- The map of the members stays nil if there are none. -/
def Group.decode : Call ByteDecoder Group := do
  let errorCode ← int16
  let groupID ← string
  let state ← string
  let protocolType ← string
  let protocol ← string
  let groupCount ← arrayLength
  let groupMembers ← if groupCount = 0 then pure none else fill Group.member groupCount GoMap.make
  return { errorCode, groupID, state, protocolType, protocol, groupMembers }

/-- `DescribeGroupsResponse.Decode` -/
def DescribeGroupsResponse.decode (version : Int16) : Call ByteDecoder DescribeGroupsResponse := do
  let throttleTime ← when (1 ≤ version) (do return ofMillis (← int32)) 0
  let groups ← array Group.decode
  return { apiVersion := version, throttleTime, groups }

structure ListGroup where
  groupID : Str
  protocolType : Str

structure ListGroupsResponse where
  apiVersion : Int16
  throttleTime : Int
  errorCode : Int16
  groups : List ListGroup

def ListGroup.puts (g : ListGroup) : List Put := [.string g.groupID, .string g.protocolType]

/-- `ListGroupsResponse.Encode` -/
def ListGroupsResponse.puts (r : ListGroupsResponse) : List Put :=
  (if 1 ≤ r.apiVersion then [.int32 (millis r.throttleTime)] else []) ++
    [.int16 r.errorCode, .arrayLength r.groups.length] ++ r.groups.flatMap ListGroup.puts

def ListGroup.decode : Call ByteDecoder ListGroup := do
  let groupID ← string
  let protocolType ← string
  return { groupID, protocolType }

/-- `ListGroupsResponse.Decode` -/
def ListGroupsResponse.decode (version : Int16) : Call ByteDecoder ListGroupsResponse := do
  let throttleTime ← when (1 ≤ version) (do return ofMillis (← int32)) 0
  let errorCode ← int16
  let groups ← array ListGroup.decode
  return { apiVersion := version, throttleTime, errorCode, groups }

end Groups

section Topics

def TopicErrorCode.created (version : Int16) (t : TopicErrorCode) : List Put :=
  [.string t.topic, .int16 t.errorCode] ++
    (if 1 ≤ version then [.nullableString t.errorMessage] else [])

/-- `CreateTopicsResponse.Encode` -/
def CreateTopicsResponse.puts (c : CreateTopicsResponse) : List Put :=
  (if 2 ≤ c.apiVersion then [.int32 (millis c.throttleTime)] else []) ++
    [.arrayLength c.topicErrorCodes.length] ++
    c.topicErrorCodes.flatMap (TopicErrorCode.created c.apiVersion)

def TopicErrorCode.decodeCreated (version : Int16) : Call ByteDecoder TopicErrorCode := do
  let topic ← string
  let errorCode ← int16
  let errorMessage ← when (1 ≤ version) nullableString none
  return { topic, errorCode, errorMessage }

/-- `CreateTopicsResponse.Decode` -/
def CreateTopicsResponse.decode (version : Int16) : Call ByteDecoder CreateTopicsResponse := do
  let throttleTime ← when (2 ≤ version) (do return ofMillis (← int32)) 0
  let topicErrorCodes ← array (TopicErrorCode.decodeCreated version)
  return { apiVersion := version, throttleTime, topicErrorCodes }

def TopicErrorCode.deleted (t : TopicErrorCode) : List Put := [.string t.topic, .int16 t.errorCode]

/-- `DeleteTopicsResponse.Encode`, for names that a string can hold: it goes on where
`PutArrayLength` and `PutString` return an error. -/
def DeleteTopicsResponse.puts (c : DeleteTopicsResponse) : List Put :=
  (if 1 ≤ c.apiVersion then [.int32 (millis c.throttleTime)] else []) ++
    [.arrayLength c.topicErrorCodes.length] ++ c.topicErrorCodes.flatMap TopicErrorCode.deleted

def TopicErrorCode.decodeDeleted : Call ByteDecoder TopicErrorCode := do
  let topic ← string
  let errorCode ← int16
  return { topic, errorCode, errorMessage := none }

/-- `DeleteTopicsResponse.Decode` -/
def DeleteTopicsResponse.decode (version : Int16) : Call ByteDecoder DeleteTopicsResponse := do
  let throttleTime ← when (1 ≤ version) (do return ofMillis (← int32)) 0
  let topicErrorCodes ← array TopicErrorCode.decodeDeleted
  return { apiVersion := version, throttleTime, topicErrorCodes }

end Topics

/-- The global `APIVersions` -/
def offeredVersions : List APIVersion :=
  [⟨0, 0, 5⟩, ⟨1, 0, 3⟩, ⟨2, 0, 2⟩, ⟨3, 0, 1⟩, ⟨4, 0, 1⟩, ⟨5, 0, 0⟩, ⟨10, 0, 1⟩, ⟨11, 0, 1⟩,
    ⟨12, 0, 1⟩, ⟨13, 0, 1⟩, ⟨14, 0, 1⟩, ⟨15, 0, 1⟩, ⟨16, 0, 1⟩, ⟨18, 0, 1⟩, ⟨19, 0, 1⟩, ⟨20, 0, 1⟩]

namespace RequestKind

/-- The version is in the range that `APIVersions` gives for the key. -/
def Offered (kind : RequestKind) (version : Int16) : Prop :=
  ∃ av ∈ offeredVersions, av.apiKey = kind.key ∧ av.minVersion ≤ version ∧ version ≤ av.maxVersion

/-- `Version` of a request. -/
def version : (kind : RequestKind) → kind.Body → Int16
  | produce => ProduceRequest.apiVersion
  | fetch => FetchRequest.apiVersion
  | offsets => OffsetsRequest.apiVersion
  | metadata => MetadataRequest.apiVersion
  | leaderAndISR => LeaderAndISRRequest.apiVersion
  | stopReplica => StopReplicaRequest.apiVersion
  | offsetCommit => OffsetCommitRequest.apiVersion
  | offsetFetch => OffsetFetchRequest.apiVersion
  | findCoordinator => FindCoordinatorRequest.apiVersion
  | joinGroup => JoinGroupRequest.apiVersion
  | heartbeat => HeartbeatRequest.apiVersion
  | leaveGroup => LeaveGroupRequest.apiVersion
  | syncGroup => SyncGroupRequest.apiVersion
  | describeGroups => DescribeGroupsRequest.apiVersion
  | createTopics => CreateTopicRequests.apiVersion
  | deleteTopics => DeleteTopicsRequest.apiVersion
  | updateMetadata | controlledShutdown | listGroups | saslHandshake | apiVersions =>
    EmptyRequest.apiVersion

/-- `Encode` of a request. -/
def puts : (kind : RequestKind) → kind.Body → List Put
  | produce => ProduceRequest.puts
  | fetch => FetchRequest.puts
  | offsets => OffsetsRequest.puts
  | metadata => MetadataRequest.puts
  | leaderAndISR => LeaderAndISRRequest.puts
  | stopReplica => StopReplicaRequest.puts
  | offsetCommit => OffsetCommitRequest.puts
  | offsetFetch => OffsetFetchRequest.puts
  | findCoordinator => FindCoordinatorRequest.puts
  | joinGroup => JoinGroupRequest.puts
  | heartbeat => HeartbeatRequest.puts
  | leaveGroup => LeaveGroupRequest.puts
  | syncGroup => SyncGroupRequest.puts
  | describeGroups => DescribeGroupsRequest.puts
  | createTopics => CreateTopicRequests.puts
  | deleteTopics => DeleteTopicsRequest.puts
  | updateMetadata | controlledShutdown | listGroups | saslHandshake | apiVersions => fun _ => []

end RequestKind

/-- A `ResponseBody`: its version, the calls of its `Encode`, and the `Decode` of its type. -/
structure ResponseBody where
  apiVersion : Int16
  puts : List Put
  decode : Int16 → Call ByteDecoder Unit

/-- A response with the `Decode` of its type. -/
def ResponseBody.of {α : Type} (apiVersion : Int16) (puts : List Put)
    (decode : Int16 → Call ByteDecoder α) : ResponseBody where
  apiVersion
  puts
  decode version := do
    let _ ← decode version

/-! The bodies that are read to their end at the version they were written in. -/

section Parses

theorem parses_throttle (p : Prop) [Decidable p] (t : Int) :
    Parses (when p (do return ofMillis (← int32)) 0) (if p then [.int32 (millis t)] else []) True :=
  .when (fun _ => .map (.int32 _) ofMillis) 0

section Produce

variable {version : Int16}

theorem ProducePartitionResponse.parses (p : ProducePartitionResponse) (recent : 2 ≤ version) :
    Parses (decode version) (p.puts version) True := by
  rw [puts, if_pos recent]
  refine .field (.int32 _) fun _ => .field (.int16 _) fun _ => .field (.int64 _) fun _ => ?_
  unfold when
  rw [if_pos recent]
  exact .field (.map (.int64 _) timeOfMillis) fun _ => .map (.when (fun _ => .int64 _) 0) _

theorem ProduceTopicResponse.parses (t : ProduceTopicResponse)
    (readable : ∀ p ∈ t.partitionResponses, 2 ≤ version) :
    Parses (decode version) (t.puts version) (t.partitionResponses.length ≤ maxArrayLength) :=
  .field (.string _) fun _ => .map ((Parses.array t.partitionResponses
    (fun p inside => p.parses (readable p inside)) fun _ => rfl).congr rfl (by simp)) _

/-- From version 2 on, every field is read where it was written. -/
theorem ProduceResponse.parses (r : ProduceResponse)
    (readable : ∀ t ∈ r.responses, ∀ p ∈ t.partitionResponses, 2 ≤ r.apiVersion) :
    Parses (decode r.apiVersion) r.puts
      (Short ProduceTopicResponse.partitionResponses r.responses) :=
  ((Parses.array r.responses (fun t inside => t.parses (readable t inside)) fun _ => rfl).bind
    fun _ => .map (parses_throttle _ r.throttleTime) _).congr rfl (and_true _).symm.to_iff

end Produce

section Fetch

variable (version : Int16)

theorem AbortedTransaction.parses (t : AbortedTransaction) : Parses decode t.puts True :=
  .field (.int64 _) fun _ => .map (.int64 _) _

theorem FetchPartitionResponse.parses_transactions (r : FetchPartitionResponse) :
    Parses decodeTransactions ([.int64 r.lastStableOffset,
      .arrayLength r.abortedTransactions.length] ++
        r.abortedTransactions.flatMap AbortedTransaction.puts)
      (r.abortedTransactions.length ≤ maxArrayLength) := by
  exact .field (.int64 _) fun _ => .map (.list AbortedTransaction.parses fun _ => rfl) _

theorem FetchPartitionResponse.parses (r : FetchPartitionResponse) :
    Parses (decode version) (r.puts version)
      (4 ≤ version → r.abortedTransactions.length ≤ maxArrayLength) := by
  simp only [puts, cons_append, nil_append]
  refine .field (.int32 _) fun _ => .field (.int16 _) fun _ => .field (.int64 _) fun _ => ?_
  exact ((r.parses_transactions.optional (0, [])).bind fun _ => .map (.bytes _) _).congr rfl
    (and_true _).symm.to_iff

theorem FetchTopicResponse.parses (t : FetchTopicResponse) :
    Parses (decode version) (t.puts version) (t.partitionResponses.length ≤ maxArrayLength ∧
      ∀ p ∈ t.partitionResponses,
        4 ≤ version → p.abortedTransactions.length ≤ maxArrayLength) :=
  .field (.string _) fun _ =>
    .map (.array _ (fun p _ => p.parses version) fun _ => rfl) _

theorem FetchResponse.parses (r : FetchResponse) :
    Parses (decode r.apiVersion) r.puts (r.responses.length ≤ maxArrayLength ∧
      ∀ t ∈ r.responses, t.partitionResponses.length ≤ maxArrayLength ∧
        ∀ p ∈ t.partitionResponses,
          4 ≤ r.apiVersion → p.abortedTransactions.length ≤ maxArrayLength) := by
  rw [puts, append_assoc]
  exact .next (parses_throttle _ _) fun _ =>
    .map (.array _ (fun t _ => FetchTopicResponse.parses _ t) fun _ => rfl) _

theorem FetchResponse.parses_old (r : FetchResponse) (old : ¬ 4 ≤ r.apiVersion) :
    Parses (decode r.apiVersion) r.puts (Short FetchTopicResponse.partitionResponses r.responses) :=
  r.parses.congr rfl (by simp [old])

end Fetch

section Metadata

theorem Broker.parses (b : Broker) : Parses decode b.puts True :=
  .field (.int32 _) fun _ => .field (.string _) fun _ => .map (.int32 _) _

theorem PartitionMetadata.parses (p : PartitionMetadata) : Parses decode p.puts True :=
  .field (.int16 _) fun _ => .field (.int32 _) fun _ => .field (.int32 _) fun _ =>
    .field (.int32Array _) fun _ => .map (.attempt (.int32Array _)) _

theorem TopicMetadata.parses (t : TopicMetadata) :
    Parses decode t.puts (t.partitionMetadata.length ≤ maxArrayLength) :=
  .field (.int16 _) fun _ => .field (.string _) fun _ =>
    .map (.list PartitionMetadata.parses fun _ => rfl) _

theorem MetadataResponse.parses (r : MetadataResponse) :
    Parses (decode r.apiVersion) r.puts (r.brokers.length ≤ maxArrayLength ∧
      Short TopicMetadata.partitionMetadata r.topicMetadata) := by
  simp only [puts, append_assoc, cons_append, nil_append]
  exact .bind (.list Broker.parses fun _ => rfl) fun _ =>
    .next (.when (fun _ => .int32 _) 0) fun _ =>
      .map (.array _ (fun t _ => TopicMetadata.parses t) fun _ => rfl) _

end Metadata

theorem LeaderAndISRPartition.parses (p : LeaderAndISRPartition) : Parses decode p.puts True :=
  .field (.string _) fun _ => .field (.int32 _) fun _ => .map (.int16 _) _

theorem LeaderAndISRResponse.parses (r : LeaderAndISRResponse) :
    Parses (decode r.apiVersion) r.puts (r.partitions.length ≤ maxArrayLength) :=
  .field (.int16 _) fun _ =>
    .map (.list LeaderAndISRPartition.parses fun _ => rfl) _

section Offsets

variable (version : Int16)

theorem PartitionResponse.parses (p : PartitionResponse) :
    Parses (decode version) (p.puts version) True := by
  refine (Parses.field (.int32 p.partition) fun _ => .field (.int16 p.errorCode) fun _ =>
    .next (.when (fun _ => .int64Array p.offsets) []) fun _ =>
      .next (.when (fun _ => .map (.int64 (unixMillis p.timestamp)) timeOfMillis) zeroTime)
        fun _ => .map (.when (fun _ => .int64 p.offset) 0) _).congr ?_ .rfl
  by_cases recent : 1 ≤ version
  · simp [puts, recent]
  · simp [puts, recent]

theorem OffsetResponse.parses (r : OffsetResponse) :
    Parses (decode version) (r.puts version) (r.partitionResponses.length ≤ maxArrayLength) :=
  .field (.string _) fun _ =>
    .map (.list (PartitionResponse.parses version) fun _ => rfl) _

theorem OffsetsResponse.parses (r : OffsetsResponse) :
    Parses (decode r.apiVersion) r.puts (Short OffsetResponse.partitionResponses r.responses) := by
  rw [puts, append_assoc]
  exact .next (parses_throttle _ _) fun _ =>
    .map (.array _ (fun t _ => OffsetResponse.parses _ t) fun _ => rfl) _

end Offsets

theorem FindCoordinatorResponse.parses (r : FindCoordinatorResponse) :
    Parses (decode r.apiVersion) r.puts True := by
  simp only [puts, append_assoc, cons_append, nil_append]
  exact .next (parses_throttle _ _) fun _ => .field (.int16 _) fun _ =>
    .next (.when (fun _ => .nullableString _) none) fun _ => .field (.int32 _) fun _ =>
      .field (.string _) fun _ => .map (.int32 _) _

section Groups

theorem Member.parses (m : Member) : Parses decode m.puts True :=
  .field (.string _) fun _ => .map (.bytes _) _

/-- Before version 1, `ThrottleTime` is neither written nor read. -/
theorem JoinGroupResponse.parses (r : JoinGroupResponse) (old : ¬ 1 ≤ r.apiVersion) :
    Parses (decode r.apiVersion) r.puts (r.members.length ≤ maxArrayLength) := by
  have older : ¬ 2 ≤ r.apiVersion := fun recent => old (Int16.le_trans (by decide) recent)
  have throttle := parses_throttle (2 ≤ r.apiVersion) r.throttleTime
  rw [if_neg older] at throttle
  rw [puts, if_neg old]
  exact throttle.next fun _ => .field (.int16 _) fun _ => .field (.int32 _) fun _ =>
    .field (.string _) fun _ => .field (.string _) fun _ => .field (.string _) fun _ =>
      .map (.list Member.parses fun _ => rfl) _

theorem HeartbeatResponse.parses (r : HeartbeatResponse) (old : ¬ 1 ≤ r.apiVersion) :
    Parses (decode r.apiVersion) r.puts True := by
  have throttle : Parses (when (1 ≤ r.apiVersion) (do return (← int32).toInt.tdiv 1000000) 0) []
      True := by
    unfold when
    rw [if_neg old]
    exact .pure _
  exact throttle.next fun _ => .map (.int16 _) _

theorem LeaveGroupResponse.parses (r : LeaveGroupResponse) :
    Parses (decode r.apiVersion) r.puts True :=
  .next (parses_throttle _ _) fun _ => .map (.int16 _) _

theorem SyncGroupResponse.parses (r : SyncGroupResponse) :
    Parses (decode r.apiVersion) r.puts True :=
  .next (parses_throttle _ _) fun _ => .field (.int16 _) fun _ => .map (.bytes _) _

theorem ListGroup.parses (g : ListGroup) : Parses decode g.puts True :=
  .field (.string _) fun _ => .map (.string _) _

theorem ListGroupsResponse.parses (r : ListGroupsResponse) :
    Parses (decode r.apiVersion) r.puts (r.groups.length ≤ maxArrayLength) := by
  rw [puts, append_assoc]
  exact .next (parses_throttle _ _) fun _ => .field (.int16 _) fun _ =>
    .map (.list ListGroup.parses fun _ => rfl) _

theorem DescribeGroupsResponse.parses (r : DescribeGroupsResponse) (none : r.groups = []) :
    Parses (decode r.apiVersion) r.puts True := by
  have groups : Parses (array Group.decode) (.arrayLength 0 :: flatMap Group.puts [])
      (0 ≤ maxArrayLength ∧ ∀ g ∈ ([] : List Group), True) :=
    Parses.array [] (fun _ inside => (not_mem_nil inside).elim) fun _ => rfl
  rw [puts, none, append_assoc]
  exact .next (parses_throttle _ _) fun _ => .map (groups.congr rfl (by simp)) _

end Groups

section Topics

theorem TopicErrorCode.parses_created (version : Int16) (t : TopicErrorCode) :
    Parses (decodeCreated version) (t.created version) True :=
  .field (.string _) fun _ => .field (.int16 _) fun _ =>
    .map (.when (fun _ => .nullableString _) none) _

theorem CreateTopicsResponse.parses (c : CreateTopicsResponse) :
    Parses (decode c.apiVersion) c.puts (c.topicErrorCodes.length ≤ maxArrayLength) := by
  rw [puts, append_assoc]
  exact .next (parses_throttle _ _) fun _ =>
    .map (.list (TopicErrorCode.parses_created _) fun _ => rfl) _

theorem TopicErrorCode.parses_deleted (t : TopicErrorCode) : Parses decodeDeleted t.deleted True :=
  .field (.string _) fun _ => .map (.int16 _) _

theorem DeleteTopicsResponse.parses (c : DeleteTopicsResponse) :
    Parses (decode c.apiVersion) c.puts (c.topicErrorCodes.length ≤ maxArrayLength) := by
  rw [puts, append_assoc]
  exact .next (parses_throttle _ _) fun _ =>
    .map (.list TopicErrorCode.parses_deleted fun _ => rfl) _

end Topics

end Parses

end Jocko.Protocol
