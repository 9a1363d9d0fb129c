import Jocko.Go.Strings

namespace Jocko.Fsm

open Go

/-- The concrete types of the `interface{}` values in a topic's configuration. -/
inductive ConfigValue where
  | string (value : Str)
  | int (value : Int)
  | bool (value : Bool)
  | float (numerator denominator : Nat)
  deriving DecidableEq

structure TopicConfigEntry where
  name : Str
  default : Option ConfigValue
  value : Option ConfigValue
  serverDefault : Str
  deriving DecidableEq

def configEntry (name : String) (default : Option ConfigValue) (serverDefault : String) :
    Str × TopicConfigEntry :=
  (ascii name, ⟨ascii name, default, none, ascii serverDefault⟩)

/-- `NewTopicConfig` -/
def newTopicConfig : GoMap Str TopicConfigEntry :=
  some
  [configEntry "cleanup.policy" (some (.string (ascii "delete"))) "log.cleanup.policy",
    configEntry "compression.type" (some (.string (ascii "producer"))) "compression.type",
    configEntry "delete.retention.ms" (some (.int 86400000)) "log.cleaner.delete.retention.ms",
    configEntry "file.delete.delay.ms" (some (.int 60000)) "log.segment.delete.delay.ms",
    configEntry "flush.messages" (some (.int 9223372036854)) "log.flush.interval.messages",
    configEntry "flush.ms" (some (.int 9223372036854775807)) "log.flush.interval.ms",
    configEntry "follower.replication.throttled.replicas" none
      "follower.replication.throttled.replicas",
    configEntry "index.interval.bytes" (some (.int 4096)) "log.index.interval.bytes",
    configEntry "leader.replication.throttled.replicas" none
      "leader.replication.throttled.replicas",
    configEntry "max.message.bytes" (some (.int 1000012)) "message.max.bytes",
    configEntry "message.format.version" (some (.string (ascii "1.1-IV0")))
      "log.message.format.version",
    configEntry "message.timestamp.difference.max.ms" (some (.int 9223372036854775807))
      "log.message.timestamp.difference.max.ms",
    configEntry "message.timestamp.type" (some (.string (ascii "CreateTime"))) "",
    configEntry "min.cleanable.dirty.ratio" (some (.float 1 2)) "log.cleaner.min.cleanable.ratio",
    configEntry "min.compaction.lag.ms" (some (.int 0)) "log.cleaner.min.compaction.lag.ms",
    configEntry "min.insync.replicas" (some (.int 1)) "min.insync.replicas",
    configEntry "preallocate" (some (.bool false)) "log.preallocate",
    configEntry "retention.bytes" (some (.int (-1))) "log.retention.bytes",
    configEntry "retention.ms" (some (.int 604800000)) "log.retention.ms",
    configEntry "segment.bytes" (some (.int 1073741824)) "log.segment.bytes",
    configEntry "segment.index.bytes" (some (.int 10485760)) "log.index.size.max.bytes",
    configEntry "segment.jitter.ms" (some (.int 0)) "log.roll.jitter.ms",
    configEntry "segment.ms" (some (.int 604800000)) "log.roll.ms",
    configEntry "unclean.leader.election.enable" (some (.string (ascii "false")))
      "unclean.leader.election.enable"]

/-- `TopicConfig.GetValue` -/
def getValue (c : GoMap Str TopicConfigEntry) (name : Str) : Option ConfigValue :=
  (c.get? name).bind fun e => e.value.or e.default

def healthPassing : Str := ascii "passing"
def healthCritical : Str := ascii "critical"

def serfCheckID : Str := ascii "serf health"
def serfCheckName : Str := ascii "Serf health status"
def serfCheckFailedOutput : Str := ascii "Node not live or unreachable"

structure HealthCheck where
  node : Str
  checkID : Str
  name : Str
  status : Str
  output : Str
  deriving DecidableEq

structure Node where
  id : Int32
  node : Int32
  address : Str
  check : Option HealthCheck
  nodeMeta : GoMap Str Str
  createIndex : UInt64
  modifyIndex : UInt64
  deriving DecidableEq

/-- `partitions` maps partition ids to the ids of the replicas. -/
structure Topic where
  id : Str
  topic : Str
  partitions : GoMap Int32 (List Int32)
  config : GoMap Str TopicConfigEntry
  internal : Bool
  createIndex : UInt64
  modifyIndex : UInt64
  deriving DecidableEq

structure Partition where
  id : Int32
  partition : Int32
  topic : Str
  isr : List Int32
  ar : List Int32
  leader : Int32
  controllerEpoch : Int32
  leaderEpoch : Int32
  createIndex : UInt64
  modifyIndex : UInt64
  deriving DecidableEq

structure Member where
  id : Str
  metadata : Option Bytes
  assignment : Option Bytes
  deriving DecidableEq

/-- The `int32` states of a group; `other` are the values without a name. -/
inductive GroupState where
  | preparingRebalance
  | completingRebalance
  | stable
  | dead
  | empty
  | other (value : Int32)
  deriving DecidableEq

structure Group where
  id : Str
  group : Str
  coordinator : Int32
  leaderID : Str
  members : GoMap Str Member
  state : GroupState
  generationID : Int32
  createIndex : UInt64
  modifyIndex : UInt64
  deriving DecidableEq

/-- The requests that raft replicates, one for each message type that has a command. -/
inductive Command where
  | registerNode (node : Node)
  | deregisterNode (node : Node)
  | registerTopic (topic : Topic)
  | deregisterTopic (topic : Topic)
  | registerPartition (partition : Partition)
  | deregisterPartition (partition : Partition)
  | registerGroup (group : Group)
  deriving DecidableEq

end Jocko.Fsm
