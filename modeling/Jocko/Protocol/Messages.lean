import Jocko.Go.Strings

namespace Jocko.Protocol

open Go

/-- The errors that the broker answers. -/
inductive ErrorCode where
  | unknown
  | none
  | unknownTopicOrPartition
  | notLeaderForPartition
  | requestTimedOut
  | brokerNotAvailable
  | replicaNotAvailable
  | illegalGeneration
  | invalidGroupId
  | unknownMemberId
  | rebalanceInProgress
  | topicAlreadyExists
  | invalidReplicationFactor
  | notController
  deriving DecidableEq

/-- `Error.Code` -/
def ErrorCode.code : ErrorCode → Int16
  | unknown => -1
  | none => 0
  | unknownTopicOrPartition => 3
  | notLeaderForPartition => 6
  | requestTimedOut => 7
  | brokerNotAvailable => 8
  | replicaNotAvailable => 9
  | illegalGeneration => 22
  | invalidGroupId => 24
  | unknownMemberId => 25
  | rebalanceInProgress => 27
  | topicAlreadyExists => 36
  | invalidReplicationFactor => 38
  | notController => 41

structure PartitionState where
  topic : Str
  partition : Int32
  controllerEpoch : Int32
  leader : Int32
  leaderEpoch : Int32
  isr : List Int32
  zkVersion : Int32
  replicas : List Int32
  isNew : Bool
  deriving DecidableEq

structure LiveLeader where
  id : Int32
  host : Str
  port : Int32
  deriving DecidableEq

structure LeaderAndISRRequest where
  apiVersion : Int16
  controllerID : Int32
  controllerEpoch : Int32
  partitionStates : List PartitionState
  liveLeaders : List LiveLeader
  deriving DecidableEq

structure LeaderAndISRPartition where
  topic : Str
  partition : Int32
  errorCode : Int16

structure LeaderAndISRResponse where
  apiVersion : Int16
  errorCode : Int16
  partitions : List LeaderAndISRPartition

structure GroupProtocol where
  protocolName : Str
  protocolMetadata : Option Bytes

structure JoinGroupRequest where
  apiVersion : Int16
  groupID : Str
  sessionTimeout : Int32
  rebalanceTimeout : Int32
  memberID : Str
  protocolType : Str
  groupProtocols : List GroupProtocol

structure Member where
  memberID : Str
  memberMetadata : Option Bytes

/-- `throttleTime` is a `time.Duration`, in nanoseconds. -/
structure JoinGroupResponse where
  apiVersion : Int16
  throttleTime : Int
  errorCode : Int16
  generationID : Int32
  groupProtocol : Str
  leaderID : Str
  memberID : Str
  members : List Member

structure LeaveGroupRequest where
  apiVersion : Int16
  groupID : Str
  memberID : Str

structure LeaveGroupResponse where
  apiVersion : Int16
  throttleTime : Int
  errorCode : Int16

structure GroupAssignment where
  memberID : Str
  memberAssignment : Option Bytes

structure SyncGroupRequest where
  apiVersion : Int16
  groupID : Str
  generationID : Int32
  memberID : Str
  groupAssignments : List GroupAssignment

structure SyncGroupResponse where
  apiVersion : Int16
  throttleTime : Int
  errorCode : Int16
  memberAssignment : Option Bytes

structure CreateTopicRequest where
  topic : Str
  numPartitions : Int32
  replicationFactor : Int16
  replicaAssignment : GoMap Int32 (List Int32)
  configs : GoMap Str (Option Str)
  deriving DecidableEq

structure CreateTopicRequests where
  apiVersion : Int16
  requests : List CreateTopicRequest
  timeout : Int
  validateOnly : Bool
  deriving DecidableEq

structure TopicErrorCode where
  topic : Str
  errorCode : Int16
  errorMessage : Option Str

structure CreateTopicsResponse where
  apiVersion : Int16
  throttleTime : Int
  topicErrorCodes : List TopicErrorCode

structure DeleteTopicsRequest where
  apiVersion : Int16
  topics : List Str
  timeout : Int

structure DeleteTopicsResponse where
  apiVersion : Int16
  throttleTime : Int
  topicErrorCodes : List TopicErrorCode

structure Data where
  partition : Int32
  recordSet : Option Bytes
  deriving DecidableEq

structure TopicData where
  topic : Str
  data : List Data

/-- `timeout` is a `time.Duration`, in nanoseconds. -/
structure ProduceRequest where
  apiVersion : Int16
  transactionalID : Option Str
  acks : Int16
  timeout : Int
  topicData : List TopicData

/-- The zero `time.Time`, in nanoseconds from the Unix epoch. -/
def zeroTime : Int := -62135596800 * 10 ^ 9

/-- Offsets are of type `int64`, and `logAppendTime` is a `time.Time` as nanoseconds from the
Unix epoch. -/
structure ProducePartitionResponse where
  partition : Int32
  errorCode : Int16
  baseOffset : Int
  logAppendTime : Int
  logStartOffset : Int
  deriving DecidableEq

structure ProduceTopicResponse where
  topic : Str
  partitionResponses : List ProducePartitionResponse
  deriving DecidableEq

structure ProduceResponse where
  apiVersion : Int16
  responses : List ProduceTopicResponse
  throttleTime : Int

structure FetchPartition where
  partition : Int32
  fetchOffset : Int
  maxBytes : Int32

structure FetchTopic where
  topic : Str
  partitions : List FetchPartition

structure FetchRequest where
  apiVersion : Int16
  replicaID : Int32
  maxWaitTime : Int
  minBytes : Int32
  maxBytes : Int32
  isolationLevel : Int8
  topics : List FetchTopic

structure AbortedTransaction where
  producerID : Int
  firstOffset : Int
  deriving DecidableEq

structure FetchPartitionResponse where
  partition : Int32
  errorCode : Int16
  highWatermark : Int
  lastStableOffset : Int
  abortedTransactions : List AbortedTransaction
  recordSet : Option Bytes
  deriving DecidableEq

structure FetchTopicResponse where
  topic : Str
  partitionResponses : List FetchPartitionResponse

structure FetchResponse where
  apiVersion : Int16
  throttleTime : Int
  responses : List FetchTopicResponse

end Jocko.Protocol
