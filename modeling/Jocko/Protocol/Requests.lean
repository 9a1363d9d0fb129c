import Jocko.Protocol.Admin
import Jocko.Protocol.Controller
import Jocko.Protocol.Coordination

namespace Jocko.Protocol

open Go ByteDecoder

structure RequestHeader where
  size : Int32
  apiKey : Int16
  apiVersion : Int16
  correlationID : Int32
  clientID : Str

/-- `RequestHeader.Decode` -/
def RequestHeader.decode : Call ByteDecoder RequestHeader := do
  let size ← int32
  let apiKey ← int16
  let apiVersion ← int16
  let correlationID ← int32
  let clientID ← string
  return { size, apiKey, apiVersion, correlationID, clientID }

/-- A request as a client sends it, with any body. -/
structure Request where
  correlationID : Int32
  clientID : Str
  key : Int16
  version : Int16
  body : List Put

/-- `Request.Encode` -/
def Request.puts (r : Request) : List Put :=
  .push .size :: ([.int16 r.key, .int16 r.version, .int32 r.correlationID, .string r.clientID] ++
    r.body ++ [.pop])

section Frames

variable {r : Request} {b : Bytes}

/-- What follows the size of a request. -/
def Request.content (r : Request) (p : Bytes) : Bytes :=
  (Put.int16 r.key).raw ++ ((Put.int16 r.version).raw ++ ((Put.int32 r.correlationID).raw ++
    (Put.rawString r.clientID ++ p)))

theorem Request.encode_eq (encoded : encode r.puts = .ok b) (nested : Nested r.body) :
    ∃ p, encode r.body = .ok p ∧ r.clientID.length ≤ maxInt16 ∧
      b = putUint 4 ((r.content p).length % 2 ^ 32) ++ r.content p := by
  have fits := fits_of_encode encoded
  obtain ⟨p, body⟩ : ∃ p, Writes checksumIEEE r.body p := nested.writes
  have within : ∀ op ∈ r.body, op.Fits := by
    intro op inside
    exact fits op (by simp [puts, inside])
  have short : r.clientID.length ≤ maxInt16 := fits (.string r.clientID) (by simp [puts])
  have content : Writes checksumIEEE
      ([.int16 r.key, .int16 r.version, .int32 r.correlationID, .string r.clientID] ++ r.body)
      (r.content p) := .plain trivial (.plain trivial (.plain trivial (.plain trivial body)))
  have written := (encodeWith_writes (.frame .size content .nil) fits).2
  rw [List.append_nil] at written
  exact ⟨p, (encodeWith_writes body within).2, short, Except.ok.inj (encoded.symm.trans written)⟩

theorem RequestHeader.reads {p : Bytes} (short : r.clientID.length ≤ maxInt16)
    (small : (r.content p).length < 2 ^ 32) (d : ByteDecoder)
    (here : d.Rest (putUint 4 ((r.content p).length % 2 ^ 32) ++ r.content p)) :
    ∃ d', RequestHeader.decode.run d = .ok ⟨Int32.ofNat (r.content p).length, r.key, r.version,
      r.correlationID, r.clientID⟩ d' ∧ d'.Rest p := by
  have size : putUint 4 ((r.content p).length % 2 ^ 32) =
      (Put.int32 (Int32.ofNat (r.content p).length)).raw := by
    rw [Nat.mod_eq_of_lt small]
    exact (Reads.raw_length small).symm
  have reads : Reads RequestHeader.decode ((Put.int32 (Int32.ofNat (r.content p).length)).raw ++
      ((Put.int16 r.key).raw ++ ((Put.int16 r.version).raw ++ ((Put.int32 r.correlationID).raw ++
        Put.rawString r.clientID))))
      ⟨Int32.ofNat (r.content p).length, r.key, r.version, r.correlationID, r.clientID⟩ :=
    (Reads.int32 _).bind ((Reads.int16 _).bind ((Reads.int16 _).bind ((Reads.int32 _).bind
      ((Reads.string short).map _))))
  have whole : d.Rest (((Put.int32 (Int32.ofNat (r.content p).length)).raw ++
      ((Put.int16 r.key).raw ++ ((Put.int16 r.version).raw ++ ((Put.int32 r.correlationID).raw ++
        Put.rawString r.clientID)))) ++ p) := by
    rw [size] at here
    simpa only [Request.content, List.append_assoc] using here
  exact ⟨_, reads d p whole, whole.skip⟩

end Frames

section Offsets

structure OffsetsPartition where
  partition : Int32
  timestamp : Int
  maxNumOffsets : Int32

structure OffsetsTopic where
  topic : Str
  partitions : List OffsetsPartition

structure OffsetsRequest where
  apiVersion : Int16
  replicaID : Int32
  isolationLevel : Int8
  topics : List OffsetsTopic

def OffsetsPartition.puts (version : Int16) (p : OffsetsPartition) : List Put :=
  [.int32 p.partition, .int64 p.timestamp] ++ (if version = 0 then [.int32 p.maxNumOffsets] else [])

def OffsetsTopic.puts (version : Int16) (t : OffsetsTopic) : List Put :=
  [.string t.topic, .arrayLength t.partitions.length] ++
    t.partitions.flatMap (OffsetsPartition.puts version)

/-- `OffsetsRequest.Encode`, for which every client is replica -1. -/
def OffsetsRequest.puts (r : OffsetsRequest) : List Put :=
  [.int32 (-1)] ++ (if 2 ≤ r.apiVersion then [.int8 r.isolationLevel] else []) ++
    [.arrayLength r.topics.length] ++ r.topics.flatMap (OffsetsTopic.puts r.apiVersion)

def OffsetsPartition.decode (version : Int16) : Call ByteDecoder OffsetsPartition := do
  let partition ← int32
  let timestamp ← int64
  let maxNumOffsets ← when (version = 0) int32 0
  return { partition, timestamp, maxNumOffsets }

def OffsetsTopic.decode (version : Int16) : Call ByteDecoder OffsetsTopic := do
  let topic ← string
  let partitions ← array (OffsetsPartition.decode version)
  return { topic, partitions }

/-- `OffsetsRequest.Decode` -/
def OffsetsRequest.decode (version : Int16) : Call ByteDecoder OffsetsRequest := do
  let replicaID ← int32
  let isolationLevel ← when (2 ≤ version) int8 0
  let topics ← array (OffsetsTopic.decode version)
  return { apiVersion := version, replicaID, isolationLevel, topics }

end Offsets

section Groups

structure FindCoordinatorRequest where
  apiVersion : Int16
  coordinatorKey : Str
  coordinatorType : Int8

structure HeartbeatRequest where
  apiVersion : Int16
  groupID : Str
  groupGenerationID : Int32
  memberID : Str

structure DescribeGroupsRequest where
  apiVersion : Int16
  groupIDs : List Str

/-- `FindCoordinatorRequest.Encode` -/
def FindCoordinatorRequest.puts (r : FindCoordinatorRequest) : List Put :=
  [.string r.coordinatorKey] ++ (if 1 ≤ r.apiVersion then [.int8 r.coordinatorType] else [])

/-- `FindCoordinatorRequest.Decode` -/
def FindCoordinatorRequest.decode (version : Int16) : Call ByteDecoder FindCoordinatorRequest := do
  let coordinatorKey ← string
  let coordinatorType ← when (1 ≤ version) int8 0
  return { apiVersion := version, coordinatorKey, coordinatorType }

/-- `HeartbeatRequest.Encode` -/
def HeartbeatRequest.puts (r : HeartbeatRequest) : List Put :=
  [.string r.groupID, .int32 r.groupGenerationID, .string r.memberID]

/-- `HeartbeatRequest.Decode` -/
def HeartbeatRequest.decode (version : Int16) : Call ByteDecoder HeartbeatRequest := do
  let groupID ← string
  let groupGenerationID ← int32
  let memberID ← string
  return { apiVersion := version, groupID, groupGenerationID, memberID }

/-- `LeaveGroupRequest.Encode` -/
def LeaveGroupRequest.puts (r : LeaveGroupRequest) : List Put :=
  [.string r.groupID, .string r.memberID]

/-- `LeaveGroupRequest.Decode` -/
def LeaveGroupRequest.decode (version : Int16) : Call ByteDecoder LeaveGroupRequest := do
  let groupID ← string
  let memberID ← string
  return { apiVersion := version, groupID, memberID }

def GroupAssignment.puts (a : GroupAssignment) : List Put :=
  [.string a.memberID, .bytes a.memberAssignment]

/-- `SyncGroupRequest.Encode` -/
def SyncGroupRequest.puts (r : SyncGroupRequest) : List Put :=
  [.string r.groupID, .int32 r.generationID, .string r.memberID,
    .arrayLength r.groupAssignments.length] ++ r.groupAssignments.flatMap GroupAssignment.puts

def GroupAssignment.decode : Call ByteDecoder GroupAssignment := do
  let memberID ← string
  let memberAssignment ← bytes
  return { memberID, memberAssignment }

/-- `SyncGroupRequest.Decode` -/
def SyncGroupRequest.decode (version : Int16) : Call ByteDecoder SyncGroupRequest := do
  let groupID ← string
  let generationID ← int32
  let memberID ← string
  let groupAssignments ← array GroupAssignment.decode
  return { apiVersion := version, groupID, generationID, memberID, groupAssignments }

/-- `DescribeGroupsRequest.Encode` -/
def DescribeGroupsRequest.puts (r : DescribeGroupsRequest) : List Put := [.stringArray r.groupIDs]

/-- `DescribeGroupsRequest.Decode` -/
def DescribeGroupsRequest.decode (version : Int16) : Call ByteDecoder DescribeGroupsRequest := do
  let groupIDs ← stringArray
  return { apiVersion := version, groupIDs }

end Groups

section Topics

/-- `DeleteTopicsRequest.Encode` -/
def DeleteTopicsRequest.puts (r : DeleteTopicsRequest) : List Put :=
  [.stringArray r.topics, .int32 (millis r.timeout)]

/-- `DeleteTopicsRequest.Decode` -/
def DeleteTopicsRequest.decode (version : Int16) : Call ByteDecoder DeleteTopicsRequest := do
  let topics ← stringArray
  let timeout ← int32
  return { apiVersion := version, topics, timeout := ofMillis timeout }

end Topics

section Empty

/-- A request without fields. -/
structure EmptyRequest where
  apiVersion : Int16

/-- `Decode` of a request without fields that keeps the version. -/
def EmptyRequest.decode (version : Int16) : Call ByteDecoder EmptyRequest :=
  return { apiVersion := version }

/-- `Decode` of a request without fields that does not. -/
def EmptyRequest.decodeNothing : Call ByteDecoder EmptyRequest :=
  return { apiVersion := 0 }

abbrev ListGroupsRequest := EmptyRequest

abbrev APIVersionsRequest := EmptyRequest

abbrev SaslHandshakeRequest := EmptyRequest

abbrev UpdateMetadataRequest := EmptyRequest

abbrev ControlledShutdownRequest := EmptyRequest

def ListGroupsRequest.decode (version : Int16) : Call ByteDecoder ListGroupsRequest :=
  EmptyRequest.decode version

def APIVersionsRequest.decode (version : Int16) : Call ByteDecoder APIVersionsRequest :=
  EmptyRequest.decode version

def SaslHandshakeRequest.decode (_version : Int16) : Call ByteDecoder SaslHandshakeRequest :=
  EmptyRequest.decodeNothing

def UpdateMetadataRequest.decode (_version : Int16) : Call ByteDecoder UpdateMetadataRequest :=
  EmptyRequest.decodeNothing

def ControlledShutdownRequest.decode (_version : Int16) :
    Call ByteDecoder ControlledShutdownRequest :=
  EmptyRequest.decodeNothing

end Empty

/-- The types of requests that `Server.handleRequest` knows. -/
inductive RequestKind where
  | produce
  | fetch
  | offsets
  | metadata
  | leaderAndISR
  | stopReplica
  | updateMetadata
  | controlledShutdown
  | offsetCommit
  | offsetFetch
  | findCoordinator
  | joinGroup
  | heartbeat
  | leaveGroup
  | syncGroup
  | describeGroups
  | listGroups
  | saslHandshake
  | apiVersions
  | createTopics
  | deleteTopics

namespace RequestKind

/-- The `APIKey` of a request. -/
def key : RequestKind → Int16
  | produce => 0
  | fetch => 1
  | offsets => 2
  | metadata => 3
  | leaderAndISR => 4
  | stopReplica => 5
  | updateMetadata => 6
  | controlledShutdown => 7
  | offsetCommit => 8
  | offsetFetch => 9
  | findCoordinator => 10
  | joinGroup => 11
  | heartbeat => 12
  | leaveGroup => 13
  | syncGroup => 14
  | describeGroups => 15
  | listGroups => 16
  | saslHandshake => 17
  | apiVersions => 18
  | createTopics => 19
  | deleteTopics => 20

/-- The struct that a request of the kind is decoded into. -/
abbrev Body : RequestKind → Type
  | produce => ProduceRequest
  | fetch => FetchRequest
  | offsets => OffsetsRequest
  | metadata => MetadataRequest
  | leaderAndISR => LeaderAndISRRequest
  | stopReplica => StopReplicaRequest
  | updateMetadata => UpdateMetadataRequest
  | controlledShutdown => ControlledShutdownRequest
  | offsetCommit => OffsetCommitRequest
  | offsetFetch => OffsetFetchRequest
  | findCoordinator => FindCoordinatorRequest
  | joinGroup => JoinGroupRequest
  | heartbeat => HeartbeatRequest
  | leaveGroup => LeaveGroupRequest
  | syncGroup => SyncGroupRequest
  | describeGroups => DescribeGroupsRequest
  | listGroups => ListGroupsRequest
  | saslHandshake => SaslHandshakeRequest
  | apiVersions => APIVersionsRequest
  | createTopics => CreateTopicRequests
  | deleteTopics => DeleteTopicsRequest

/-- `req.Decode(d, header.APIVersion)` -/
def decode (version : Int16) : (kind : RequestKind) → Call ByteDecoder kind.Body
  | produce => ProduceRequest.decode version
  | fetch => FetchRequest.decode version
  | offsets => OffsetsRequest.decode version
  | metadata => MetadataRequest.decode version
  | leaderAndISR => LeaderAndISRRequest.decode version
  | stopReplica => StopReplicaRequest.decode version
  | updateMetadata => UpdateMetadataRequest.decode version
  | controlledShutdown => ControlledShutdownRequest.decode version
  | offsetCommit => OffsetCommitRequest.decode version
  | offsetFetch => OffsetFetchRequest.decode version
  | findCoordinator => FindCoordinatorRequest.decode version
  | joinGroup => JoinGroupRequest.decode version
  | heartbeat => HeartbeatRequest.decode version
  | leaveGroup => LeaveGroupRequest.decode version
  | syncGroup => SyncGroupRequest.decode version
  | describeGroups => DescribeGroupsRequest.decode version
  | listGroups => ListGroupsRequest.decode version
  | saslHandshake => SaslHandshakeRequest.decode version
  | apiVersions => APIVersionsRequest.decode version
  | createTopics => CreateTopicRequests.decode version
  | deleteTopics => DeleteTopicsRequest.decode version

end RequestKind

end Jocko.Protocol
