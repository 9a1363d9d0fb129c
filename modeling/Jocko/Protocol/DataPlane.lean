import Jocko.Protocol.Codec
import Jocko.Protocol.Messages
import Mathlib.Algebra.Order.BigOperators.Group.List
import Mathlib.Algebra.Order.Ring.Nat

namespace Jocko.Protocol

open Go ByteDecoder List

/-- `int32(t / time.Millisecond)` -/
def millis (t : Int) : Int32 := Int32.ofInt (t.tdiv 1000000)

/-- `time.Duration(m) * time.Millisecond` -/
def ofMillis (m : Int32) : Int := m.toInt * 1000000

theorem millis_ofMillis (m : Int32) : millis (ofMillis m) = m := by
  unfold millis ofMillis
  rw [Int.mul_tdiv_cancel _ (by decide), Int32.ofInt_toInt]

/-- A duration of whole milliseconds within `int32`. -/
def WholeMillis (t : Int) : Prop := ∃ m : Int32, t = m.toInt * 1000000

theorem ofMillis_millis {t : Int} : ofMillis (millis t) = t ↔ WholeMillis t := by
  constructor
  · intro same
    exact ⟨millis t, same.symm⟩
  · rintro ⟨m, rfl⟩
    exact congrArg ofMillis (millis_ofMillis m)

/-- The values of the type `int64`. -/
def InInt64 (i : Int) : Prop := -2 ^ 63 ≤ i ∧ i < 2 ^ 63

instance (i : Int) : Decidable (InInt64 i) := inferInstanceAs (Decidable (_ ∧ _))

namespace Codec

/-- A `time.Duration` in milliseconds. -/
@[simps! dec lay] def millis : Codec Int := int32.iso ofMillis Protocol.millis millis_ofMillis

@[simp] theorem fit_millis {t : Int} : millis.Fit t ↔ WholeMillis t := by
  simp [millis, ofMillis_millis]

end Codec

section Produce

def Data.puts (d : Data) : List Put := [.int32 d.partition, .bytes d.recordSet]

def TopicData.puts (td : TopicData) : List Put :=
  [.string td.topic, .arrayLength td.data.length] ++ td.data.flatMap Data.puts

/-- `ProduceRequest.Encode` -/
def ProduceRequest.puts (r : ProduceRequest) : List Put :=
  (if 3 ≤ r.apiVersion then [.nullableString r.transactionalID] else []) ++
    [.int16 r.acks, .int32 (millis r.timeout), .arrayLength r.topicData.length] ++
    r.topicData.flatMap TopicData.puts

def Data.decode : Call ByteDecoder Data := do
  let partition ← int32
  let recordSet ← bytes
  return { partition, recordSet }

def TopicData.decode : Call ByteDecoder TopicData := do
  let topic ← string
  let data ← array Data.decode
  return { topic, data }

/-- `ProduceRequest.Decode` -/
def ProduceRequest.decode (version : Int16) : Call ByteDecoder ProduceRequest := do
  let transactionalID ← when (3 ≤ version) nullableString none
  let acks ← int16
  let timeout ← int32
  let topicData ← array TopicData.decode
  return { apiVersion := version, transactionalID, acks, timeout := ofMillis timeout, topicData }

def Data.codec : Codec Data :=
  (Codec.int32.pair .bytes).iso (fun p => ⟨p.1, p.2⟩) (fun d => (d.partition, d.recordSet))

def TopicData.codec : Codec TopicData :=
  (Codec.string.pair Data.codec.array).iso (fun p => ⟨p.1, p.2⟩)
    (fun td => (td.topic, td.data))

def ProduceRequest.codec (version : Int16) : Codec ProduceRequest :=
  ((Codec.when (3 ≤ version) .nullableString none).pair
    (Codec.int16.pair (Codec.millis.pair TopicData.codec.array))).iso
    (fun p => ⟨version, p.1, p.2.1, p.2.2.1, p.2.2.2⟩)
    (fun r => (r.transactionalID, r.acks, r.timeout, r.topicData))

theorem Data.coded : puts = codec.lay ∧ decode = codec.dec := by
  simp [funext_iff, puts, decode, codec]

theorem TopicData.coded : puts = codec.lay ∧ decode = codec.dec := by
  simp [funext_iff, puts, decode, codec, Data.coded]

/-- What `Encode` needs of a request at its version. -/
def ProduceRequest.Limits (r : ProduceRequest) : Prop :=
  (if 3 ≤ r.apiVersion then (r.transactionalID.getD []).length ≤ maxInt16
    else r.transactionalID = none) ∧
  WholeMillis r.timeout ∧ r.topicData.length ≤ maxArrayLength ∧
  ∀ td ∈ r.topicData, td.topic.length ≤ maxInt16 ∧ td.data.length ≤ maxArrayLength ∧
    ∀ d ∈ td.data, (d.recordSet.getD []).length ≤ maxInt32

theorem ProduceRequest.survives_iff (r : ProduceRequest) :
    RoundTrips r.puts (decode r.apiVersion) r ↔ r.Limits := by
  refine (codec r.apiVersion).carries (by simp [puts, decode, codec, TopicData.coded]) ?_
  simp [codec, TopicData.codec, Data.codec, Limits]

end Produce

section Fetch

def FetchPartition.puts (p : FetchPartition) : List Put :=
  [.int32 p.partition, .int64 p.fetchOffset, .int32 p.maxBytes]

def FetchTopic.puts (t : FetchTopic) : List Put :=
  [.string t.topic, .arrayLength t.partitions.length] ++ t.partitions.flatMap FetchPartition.puts

/-- `FetchRequest.Encode`; clients have the replica id -1. -/
def FetchRequest.puts (r : FetchRequest) : List Put :=
  [.int32 (if r.replicaID = 0 then -1 else r.replicaID), .int32 (millis r.maxWaitTime),
    .int32 r.minBytes] ++
    (if 3 ≤ r.apiVersion then [.int32 r.maxBytes] else []) ++
    (if 4 ≤ r.apiVersion then [.int8 r.isolationLevel] else []) ++
    [.arrayLength r.topics.length] ++ r.topics.flatMap FetchTopic.puts

def FetchPartition.decode : Call ByteDecoder FetchPartition := do
  let partition ← int32
  let fetchOffset ← int64
  let maxBytes ← int32
  return { partition, fetchOffset, maxBytes }

def FetchTopic.decode : Call ByteDecoder FetchTopic := do
  let topic ← string
  let partitions ← array FetchPartition.decode
  return { topic, partitions }

/-- `FetchRequest.Decode` -/
def FetchRequest.decode (version : Int16) : Call ByteDecoder FetchRequest := do
  let replicaID ← int32
  let maxWaitTime ← int32
  let minBytes ← int32
  let maxBytes ← when (3 ≤ version) int32 0
  let isolationLevel ← when (4 ≤ version) int8 0
  let topics ← array FetchTopic.decode
  return { apiVersion := version, replicaID, maxWaitTime := ofMillis maxWaitTime, minBytes,
           maxBytes, isolationLevel, topics }

def FetchPartition.codec : Codec FetchPartition :=
  (Codec.int32.pair (Codec.int64.pair .int32)).iso (fun p => ⟨p.1, p.2.1, p.2.2⟩)
    (fun p => (p.partition, p.fetchOffset, p.maxBytes))

def FetchTopic.codec : Codec FetchTopic :=
  (Codec.string.pair FetchPartition.codec.array).iso (fun p => ⟨p.1, p.2⟩)
    (fun t => (t.topic, t.partitions))

def FetchRequest.codec (version : Int16) : Codec FetchRequest :=
  (Codec.int32.pair (Codec.millis.pair (Codec.int32.pair
    ((Codec.when (3 ≤ version) .int32 0).pair ((Codec.when (4 ≤ version) .int8 0).pair
      FetchTopic.codec.array))))).iso
    (fun p => ⟨version, p.1, p.2.1, p.2.2.1, p.2.2.2.1, p.2.2.2.2.1, p.2.2.2.2.2⟩)
    (fun r => (r.replicaID, r.maxWaitTime, r.minBytes, r.maxBytes, r.isolationLevel, r.topics))

theorem FetchPartition.coded : puts = codec.lay ∧ decode = codec.dec := by
  simp [funext_iff, puts, decode, codec]

theorem FetchTopic.coded : puts = codec.lay ∧ decode = codec.dec := by
  simp [funext_iff, puts, decode, codec, FetchPartition.coded]

def FetchRequest.Limits (r : FetchRequest) : Prop :=
  WholeMillis r.maxWaitTime ∧ (¬ 3 ≤ r.apiVersion → r.maxBytes = 0) ∧
  (¬ 4 ≤ r.apiVersion → r.isolationLevel = 0) ∧ r.topics.length ≤ maxArrayLength ∧
  ∀ t ∈ r.topics, t.topic.length ≤ maxInt16 ∧ t.partitions.length ≤ maxArrayLength ∧
    ∀ p ∈ t.partitions, InInt64 p.fetchOffset

theorem FetchRequest.survives_iff {r : FetchRequest} (replica : r.replicaID ≠ 0) :
    RoundTrips r.puts (decode r.apiVersion) r ↔ r.Limits := by
  refine (codec r.apiVersion).carries (by simp [puts, decode, codec, FetchTopic.coded, replica]) ?_
  simp [codec, FetchTopic.codec, FetchPartition.codec, Limits,
    InInt64]

def AbortedTransaction.puts (t : AbortedTransaction) : List Put :=
  [.int64 t.producerID, .int64 t.firstOffset]

def FetchPartitionResponse.puts (version : Int16) (r : FetchPartitionResponse) : List Put :=
  [.int32 r.partition, .int16 r.errorCode, .int64 r.highWatermark] ++
    (if 4 ≤ version then
      [.int64 r.lastStableOffset, .arrayLength r.abortedTransactions.length] ++
        r.abortedTransactions.flatMap AbortedTransaction.puts
    else []) ++
    [.bytes r.recordSet]

def FetchTopicResponse.puts (version : Int16) (t : FetchTopicResponse) : List Put :=
  [.string t.topic, .arrayLength t.partitionResponses.length] ++
    t.partitionResponses.flatMap (FetchPartitionResponse.puts version)

/-- `FetchResponse.Encode` -/
def FetchResponse.puts (r : FetchResponse) : List Put :=
  (if 1 ≤ r.apiVersion then [.int32 (millis r.throttleTime)] else []) ++
    [.arrayLength r.responses.length] ++ r.responses.flatMap (FetchTopicResponse.puts r.apiVersion)

def AbortedTransaction.decode : Call ByteDecoder AbortedTransaction := do
  let producerID ← int64
  let firstOffset ← int64
  return { producerID, firstOffset }

/-- What `Decode` reads from version 4 on: `LastStableOffset` and `AbortedTransactions`. -/
def FetchPartitionResponse.decodeTransactions :
    Call ByteDecoder (Int × List AbortedTransaction) := do
  let lastStableOffset ← int64
  let abortedTransactions ← array AbortedTransaction.decode
  return (lastStableOffset, abortedTransactions)

def FetchPartitionResponse.decode (version : Int16) : Call ByteDecoder FetchPartitionResponse := do
  let partition ← int32
  let errorCode ← int16
  let highWatermark ← int64
  let transactions ← when (4 ≤ version) decodeTransactions (0, [])
  let recordSet ← bytes
  return { partition, errorCode, highWatermark, lastStableOffset := transactions.1,
           abortedTransactions := transactions.2, recordSet }

def FetchTopicResponse.decode (version : Int16) : Call ByteDecoder FetchTopicResponse := do
  let topic ← string
  let partitionResponses ← array (FetchPartitionResponse.decode version)
  return { topic, partitionResponses }

/-- `FetchResponse.Decode` -/
def FetchResponse.decode (version : Int16) : Call ByteDecoder FetchResponse := do
  let throttle ← when (1 ≤ version) (do return ofMillis (← int32)) 0
  let responses ← array (FetchTopicResponse.decode version)
  return { apiVersion := version, throttleTime := throttle, responses }

def AbortedTransaction.codec : Codec AbortedTransaction :=
  (Codec.int64.pair .int64).iso (fun p => ⟨p.1, p.2⟩) (fun t => (t.producerID, t.firstOffset))

def FetchPartitionResponse.codec (version : Int16) : Codec FetchPartitionResponse :=
  (Codec.int32.pair (Codec.int16.pair (Codec.int64.pair
    ((Codec.when (4 ≤ version)
      (Codec.int64.pair AbortedTransaction.codec.array) (0, [])).pair
      Codec.bytes)))).iso
    (fun p => ⟨p.1, p.2.1, p.2.2.1, p.2.2.2.1.1, p.2.2.2.1.2, p.2.2.2.2⟩)
    (fun r => (r.partition, r.errorCode, r.highWatermark,
      (r.lastStableOffset, r.abortedTransactions), r.recordSet))

def FetchTopicResponse.codec (version : Int16) : Codec FetchTopicResponse :=
  (Codec.string.pair
    (FetchPartitionResponse.codec version).array).iso
    (fun p => ⟨p.1, p.2⟩) (fun t => (t.topic, t.partitionResponses))

def FetchResponse.codec (version : Int16) : Codec FetchResponse :=
  ((Codec.when (1 ≤ version) .millis 0).pair
    (FetchTopicResponse.codec version).array).iso
    (fun p => ⟨version, p.1, p.2⟩) (fun r => (r.throttleTime, r.responses))

theorem AbortedTransaction.coded : puts = codec.lay ∧ decode = codec.dec := by
  simp [funext_iff, puts, decode, codec]

theorem FetchPartitionResponse.coded (version : Int16) :
    puts version = (codec version).lay ∧ decode version = (codec version).dec := by
  simp [funext_iff, puts, decode, codec, AbortedTransaction.coded, decodeTransactions]

theorem FetchTopicResponse.coded (version : Int16) :
    puts version = (codec version).lay ∧ decode version = (codec version).dec := by
  simp [funext_iff, puts, decode, codec, FetchPartitionResponse.coded]

def FetchResponse.Limits (r : FetchResponse) : Prop :=
  (if 1 ≤ r.apiVersion then WholeMillis r.throttleTime else r.throttleTime = 0) ∧
  r.responses.length ≤ maxArrayLength ∧
  ∀ t ∈ r.responses, t.topic.length ≤ maxInt16 ∧ t.partitionResponses.length ≤ maxArrayLength ∧
    ∀ p ∈ t.partitionResponses, InInt64 p.highWatermark ∧
      (if 4 ≤ r.apiVersion then InInt64 p.lastStableOffset ∧
        p.abortedTransactions.length ≤ maxArrayLength ∧
        ∀ a ∈ p.abortedTransactions, InInt64 a.producerID ∧ InInt64 a.firstOffset
      else p.lastStableOffset = 0 ∧ p.abortedTransactions = []) ∧
      (p.recordSet.getD []).length ≤ maxInt32

theorem FetchResponse.survives_iff (r : FetchResponse) :
    RoundTrips r.puts (decode r.apiVersion) r ↔ r.Limits := by
  refine (codec r.apiVersion).carries (by simp [puts, decode, codec, FetchTopicResponse.coded]) ?_
  simp [codec, FetchTopicResponse.codec, FetchPartitionResponse.codec, AbortedTransaction.codec,
    Limits, InInt64]

end Fetch

section Metadata

structure MetadataRequest where
  apiVersion : Int16
  topics : List Str
  allowAutoTopicCreation : Bool

structure Broker where
  nodeID : Int32
  host : Str
  port : Int32

structure PartitionMetadata where
  partitionErrorCode : Int16
  partitionID : Int32
  leader : Int32
  replicas : List Int32
  isr : List Int32

structure TopicMetadata where
  topicErrorCode : Int16
  topic : Str
  partitionMetadata : List PartitionMetadata

structure MetadataResponse where
  apiVersion : Int16
  brokers : List Broker
  controllerID : Int32
  topicMetadata : List TopicMetadata

/-- `MetadataRequest.Encode` -/
def MetadataRequest.puts (r : MetadataRequest) : List Put :=
  [.stringArray r.topics] ++
    (if 4 ≤ r.apiVersion then [.bool r.allowAutoTopicCreation] else [])

/-- `MetadataRequest.Decode` -/
def MetadataRequest.decode (version : Int16) : Call ByteDecoder MetadataRequest := do
  let topics ← stringArray
  let allowAutoTopicCreation ← when (4 ≤ version) bool false
  return { apiVersion := version, topics, allowAutoTopicCreation }

def MetadataRequest.codec (version : Int16) : Codec MetadataRequest :=
  (Codec.stringArray.pair (Codec.when (4 ≤ version) .bool false)).iso
    (fun p => ⟨version, p.1, p.2⟩) (fun r => (r.topics, r.allowAutoTopicCreation))

def MetadataRequest.Limits (r : MetadataRequest) : Prop :=
  r.topics.length ≤ maxInt32 ∧ (∀ t ∈ r.topics, t.length ≤ maxInt16) ∧
  (¬ 4 ≤ r.apiVersion → r.allowAutoTopicCreation = false)

theorem MetadataRequest.survives_iff (r : MetadataRequest) :
    RoundTrips r.puts (decode r.apiVersion) r ↔ r.Limits := by
  refine (codec r.apiVersion).carries (by simp [puts, decode, codec]) ?_
  simp [codec, Limits, and_assoc]

def Broker.puts (b : Broker) : List Put := [.int32 b.nodeID, .string b.host, .int32 b.port]

def PartitionMetadata.puts (p : PartitionMetadata) : List Put :=
  [.int16 p.partitionErrorCode, .int32 p.partitionID, .int32 p.leader, .int32Array p.replicas,
    .int32Array p.isr]

def TopicMetadata.puts (t : TopicMetadata) : List Put :=
  [.int16 t.topicErrorCode, .string t.topic, .arrayLength t.partitionMetadata.length] ++
    t.partitionMetadata.flatMap PartitionMetadata.puts

/-- `MetadataResponse.Encode` -/
def MetadataResponse.puts (r : MetadataResponse) : List Put :=
  [.arrayLength r.brokers.length] ++ r.brokers.flatMap Broker.puts ++
    (if 1 ≤ r.apiVersion then [.int32 r.controllerID] else []) ++
    [.arrayLength r.topicMetadata.length] ++ r.topicMetadata.flatMap TopicMetadata.puts

def Broker.decode : Call ByteDecoder Broker := do
  let nodeID ← int32
  let host ← string
  let port ← int32
  return { nodeID, host, port }

/-- The error of the last read is not looked at; the `nil` that comes with it is kept. -/
def PartitionMetadata.decode : Call ByteDecoder PartitionMetadata := do
  let partitionErrorCode ← int16
  let partitionID ← int32
  let leader ← int32
  let replicas ← int32Array
  let isr ← attempt int32Array
  return { partitionErrorCode, partitionID, leader, replicas, isr := isr.toOption.getD [] }

def TopicMetadata.decode : Call ByteDecoder TopicMetadata := do
  let topicErrorCode ← int16
  let topic ← string
  let partitionMetadata ← array PartitionMetadata.decode
  return { topicErrorCode, topic, partitionMetadata }

/-- `MetadataResponse.Decode` -/
def MetadataResponse.decode (version : Int16) : Call ByteDecoder MetadataResponse := do
  let brokers ← array Broker.decode
  let controllerID ← when (1 ≤ version) int32 0
  let topicMetadata ← array TopicMetadata.decode
  return { apiVersion := version, brokers, controllerID, topicMetadata }

def Broker.codec : Codec Broker :=
  (Codec.int32.pair (Codec.string.pair .int32)).iso (fun p => ⟨p.1, p.2.1, p.2.2⟩)
    (fun b => (b.nodeID, b.host, b.port))

def PartitionMetadata.codec : Codec PartitionMetadata :=
  (Codec.int16.pair (Codec.int32.pair (Codec.int32.pair
    (Codec.int32Array.pair .int32Array)))).iso
    (fun p => ⟨p.1, p.2.1, p.2.2.1, p.2.2.2.1, p.2.2.2.2⟩)
    (fun p => (p.partitionErrorCode, p.partitionID, p.leader, p.replicas, p.isr))

def TopicMetadata.codec : Codec TopicMetadata :=
  (Codec.int16.pair (Codec.string.pair
    PartitionMetadata.codec.array)).iso
    (fun p => ⟨p.1, p.2.1, p.2.2⟩) (fun t => (t.topicErrorCode, t.topic, t.partitionMetadata))

/-- A decoder that looks at every error. -/
def MetadataResponse.codec (version : Int16) : Codec MetadataResponse :=
  (Broker.codec.array.pair ((Codec.when (1 ≤ version) .int32 0).pair
    TopicMetadata.codec.array)).iso
    (fun p => ⟨version, p.1, p.2.1, p.2.2⟩)
    (fun r => (r.brokers, r.controllerID, r.topicMetadata))

theorem Broker.coded : puts = codec.lay ∧ decode = codec.dec := by
  simp [funext_iff, puts, decode, codec]

theorem PartitionMetadata.puts_eq : PartitionMetadata.puts = PartitionMetadata.codec.lay := by
  funext p
  simp [puts, codec]

theorem TopicMetadata.puts_eq : TopicMetadata.puts = TopicMetadata.codec.lay := by
  funext t
  simp [puts, codec, PartitionMetadata.puts_eq]

theorem MetadataResponse.puts_eq (r : MetadataResponse) : r.puts = (codec r.apiVersion).lay r := by
  simp [puts, codec, Broker.coded, TopicMetadata.puts_eq]

theorem PartitionMetadata.extends_decode : Extends codec.dec decode := by
  have keeps : Extends ByteDecoder.int32Array
      (attempt ByteDecoder.int32Array >>= fun isr => pure (isr.toOption.getD [])) := by
    intro d d' value ran
    exact bind_ok (attempt_ok ran)
  have read := (Extends.refl int16).bind fun partitionErrorCode =>
    (Extends.refl int32).bind fun partitionID => (Extends.refl int32).bind fun leader =>
    (Extends.refl int32Array).bind fun replicas => keeps.bind fun isr =>
    Extends.refl (pure (⟨partitionErrorCode, partitionID, leader, replicas, isr⟩ :
      PartitionMetadata))
  simpa [codec, decode] using read

theorem TopicMetadata.extends_decode : Extends codec.dec decode := by
  have read := (Extends.refl int16).bind fun topicErrorCode => (Extends.refl string).bind fun topic =>
    PartitionMetadata.extends_decode.array.bind fun partitionMetadata =>
    Extends.refl (pure (⟨topicErrorCode, topic, partitionMetadata⟩ : TopicMetadata))
  simpa [codec, decode] using read

theorem MetadataResponse.extends_decode (version : Int16) :
    Extends (codec version).dec (decode version) := by
  have read := (Extends.refl (array Broker.decode)).bind fun brokers =>
    (Extends.refl (when (1 ≤ version) int32 0)).bind fun controllerID =>
    TopicMetadata.extends_decode.array.bind fun topicMetadata =>
    Extends.refl (pure (⟨version, brokers, controllerID, topicMetadata⟩ : MetadataResponse))
  simpa [codec, decode, Broker.coded] using read

def MetadataResponse.Limits (r : MetadataResponse) : Prop :=
  r.brokers.length ≤ maxArrayLength ∧ (∀ b ∈ r.brokers, b.host.length ≤ maxInt16) ∧
  (¬ 1 ≤ r.apiVersion → r.controllerID = 0) ∧ r.topicMetadata.length ≤ maxArrayLength ∧
  ∀ t ∈ r.topicMetadata, t.topic.length ≤ maxInt16 ∧
    t.partitionMetadata.length ≤ maxArrayLength ∧
    ∀ p ∈ t.partitionMetadata, p.replicas.length ≤ maxInt32 ∧ p.isr.length ≤ maxInt32

theorem MetadataResponse.persists {r : MetadataResponse} (limits : r.Limits) :
    RoundTrips r.puts (decode r.apiVersion) r := by
  have fit : (codec r.apiVersion).Fit r := by
    simpa [codec, Broker.codec, TopicMetadata.codec, PartitionMetadata.codec, and_assoc, Limits]
      using limits
  exact ((Codec.roundTrips_iff _ r.puts_eq rfl).mpr fit).extends (extends_decode r.apiVersion)

end Metadata

/-- Requests and responses of the data plane survive at every version. -/
theorem data_plane_survives :
    (∀ r : ProduceRequest, r.Limits →
      RoundTrips r.puts (ProduceRequest.decode r.apiVersion) r) ∧
    (∀ r : FetchRequest, r.replicaID ≠ 0 → r.Limits →
      RoundTrips r.puts (FetchRequest.decode r.apiVersion) r) ∧
    (∀ r : FetchResponse, r.Limits → RoundTrips r.puts (FetchResponse.decode r.apiVersion) r) ∧
    (∀ r : MetadataRequest, r.Limits →
      RoundTrips r.puts (MetadataRequest.decode r.apiVersion) r) ∧
    (∀ r : MetadataResponse, r.Limits →
      RoundTrips r.puts (MetadataResponse.decode r.apiVersion) r) := by
  refine ⟨?_, ?_, ?_, ?_, ?_⟩
  · intro r limits
    exact r.survives_iff.mpr limits
  · intro r replica limits
    exact (FetchRequest.survives_iff replica).mpr limits
  · intro r limits
    exact r.survives_iff.mpr limits
  · intro r limits
    exact r.survives_iff.mpr limits
  · intro r limits
    exact MetadataResponse.persists limits

/-- Null and empty record sets, at a version with every field. -/
theorem data_plane_survives_null_and_empty :
    RoundTrips (ProduceRequest.puts ⟨3, some [120], -1, 1500000000,
        [⟨[116], [⟨0, none⟩, ⟨1, some []⟩, ⟨2, some [1, 2]⟩]⟩]⟩) (ProduceRequest.decode 3)
      ⟨3, some [120], -1, 1500000000, [⟨[116], [⟨0, none⟩, ⟨1, some []⟩, ⟨2, some [1, 2]⟩]⟩]⟩ ∧
    RoundTrips (FetchRequest.puts ⟨4, 2, 1000000, 1, 2, 1, [⟨[116], [⟨0, -1, 9⟩]⟩]⟩)
      (FetchRequest.decode 4) ⟨4, 2, 1000000, 1, 2, 1, [⟨[116], [⟨0, -1, 9⟩]⟩]⟩ ∧
    RoundTrips (FetchResponse.puts ⟨4, 1000000, [⟨[116], [⟨0, 3, 5, 4, [⟨7, 8⟩], none⟩]⟩]⟩)
      (FetchResponse.decode 4) ⟨4, 1000000, [⟨[116], [⟨0, 3, 5, 4, [⟨7, 8⟩], none⟩]⟩]⟩ ∧
    RoundTrips (MetadataRequest.puts ⟨4, [[116], []], true⟩) (MetadataRequest.decode 4)
      ⟨4, [[116], []], true⟩ ∧
    RoundTrips (MetadataResponse.puts ⟨1, [⟨1, [104], 9092⟩], 1, [⟨0, [116], [⟨0, 0, 1, [1, 2], [1]⟩]⟩]⟩)
      (MetadataResponse.decode 1)
      ⟨1, [⟨1, [104], 9092⟩], 1, [⟨0, [116], [⟨0, 0, 1, [1, 2], [1]⟩]⟩]⟩ := by
  obtain ⟨produce, fetch, fetched, metadata, described⟩ := data_plane_survives
  refine ⟨produce _ ⟨by decide, ⟨1500, by decide⟩, by decide⟩,
    fetch _ (by decide) ⟨⟨1, by decide⟩, by decide⟩, fetched _ ⟨⟨1, by decide⟩, by decide⟩,
    metadata _ ⟨by decide, by decide, by decide⟩, described _ ⟨by decide, by decide, by decide⟩⟩

/-- A record set that is longer than its length field can say is not encoded. -/
theorem encode_long_record_set {p : Bytes} (long : maxInt32 < p.length) :
    (encode (ProduceRequest.puts ⟨0, none, 1, 0, [⟨[116], [⟨0, some p⟩]⟩]⟩)).toOption = none := by
  cases encoded : encode (ProduceRequest.puts ⟨0, none, 1, 0, [⟨[116], [⟨0, some p⟩]⟩]⟩) with
  | error why => rfl
  | ok b =>
    have fits : p.length ≤ maxInt32 := fits_of_encode encoded (.bytes (some p))
      (by simp [ProduceRequest.puts, TopicData.puts, Data.puts])
    omega

theorem long_record_set_not_encoded :
    (encode (ProduceRequest.puts
      ⟨0, none, 1, 0, [⟨[116], [⟨0, some (List.replicate 2147483648 0)⟩]⟩]⟩)).toOption = none :=
  encode_long_record_set (by rw [length_replicate]; decide)

section Produced

/-- `int64(t.UnixNano() / int64(time.Millisecond))` -/
def unixMillis (t : Int) : Int := (t.bmod (2 ^ 64)).tdiv 1000000

/-- `time.Unix(millis/1000, (millis%1000)*int64(time.Millisecond))` -/
def timeOfMillis (m : Int) : Int := m.tdiv 1000 * 1000000000 + m.tmod 1000 * 1000000

/-- `BaseOffset` is there from version 2 on. -/
def ProducePartitionResponse.puts (version : Int16) (p : ProducePartitionResponse) : List Put :=
  [.int32 p.partition, .int16 p.errorCode] ++
    (if 2 ≤ version then [.int64 p.baseOffset, .int64 (unixMillis p.logAppendTime)] else []) ++
    (if 5 ≤ version then [.int64 p.logStartOffset] else [])

def ProduceTopicResponse.puts (version : Int16) (t : ProduceTopicResponse) : List Put :=
  [.string t.topic, .arrayLength t.partitionResponses.length] ++
    t.partitionResponses.flatMap (ProducePartitionResponse.puts version)

/-- `ProduceResponse.Encode` -/
def ProduceResponse.puts (r : ProduceResponse) : List Put :=
  [.arrayLength r.responses.length] ++
    r.responses.flatMap (ProduceTopicResponse.puts r.apiVersion) ++
    (if 1 ≤ r.apiVersion then [.int32 (millis r.throttleTime)] else [])

/-- `BaseOffset` is read at every version. -/
def ProducePartitionResponse.decode (version : Int16) :
    Call ByteDecoder ProducePartitionResponse := do
  let partition ← int32
  let errorCode ← int16
  let baseOffset ← int64
  let logAppendTime ← when (2 ≤ version) (do return timeOfMillis (← int64)) zeroTime
  let logStartOffset ← when (5 ≤ version) int64 0
  return { partition, errorCode, baseOffset, logAppendTime, logStartOffset }

def ProduceTopicResponse.decode (version : Int16) : Call ByteDecoder ProduceTopicResponse := do
  let topic ← string
  let partitionResponses ← array (ProducePartitionResponse.decode version)
  return { topic, partitionResponses }

/-- `ProduceResponse.Decode` -/
def ProduceResponse.decode (version : Int16) : Call ByteDecoder ProduceResponse := do
  let responses ← array (ProduceTopicResponse.decode version)
  let throttleTime ← when (1 ≤ version) (do return ofMillis (← int32)) 0
  return { apiVersion := version, responses, throttleTime }

theorem timeOfMillis_eq (m : Int) : timeOfMillis m = m * 1000000 := by
  have parts := Int.tdiv_mul_add_tmod m 1000
  unfold timeOfMillis
  omega

theorem tdiv_timeOfMillis (m : Int) : (timeOfMillis m).tdiv 1000000 = m := by
  rw [timeOfMillis_eq, Int.mul_tdiv_cancel _ (by decide)]

/-- A time in milliseconds that `UnixNano` can say. -/
def Codec.unixTime : Codec Int :=
  int64.iso timeOfMillis (fun t => t.tdiv 1000000) tdiv_timeOfMillis

def ProducePartitionResponse.codec (version : Int16) : Codec ProducePartitionResponse :=
  (Codec.int32.pair (Codec.int16.pair (Codec.int64.pair
    ((Codec.when (2 ≤ version) .unixTime zeroTime).pair (Codec.when (5 ≤ version) .int64 0))))).iso
    (fun p => ⟨p.1, p.2.1, p.2.2.1, p.2.2.2.1, p.2.2.2.2⟩)
    (fun p => (p.partition, p.errorCode, p.baseOffset, p.logAppendTime, p.logStartOffset))

def ProduceTopicResponse.codec (version : Int16) : Codec ProduceTopicResponse :=
  (Codec.string.pair
    (ProducePartitionResponse.codec version).array).iso
    (fun p => ⟨p.1, p.2⟩) (fun t => (t.topic, t.partitionResponses))

def ProduceResponse.codec (version : Int16) : Codec ProduceResponse :=
  ((ProduceTopicResponse.codec version).array.pair
    (Codec.when (1 ≤ version) .millis 0)).iso
    (fun p => ⟨version, p.1, p.2⟩) (fun r => (r.responses, r.throttleTime))

theorem ProducePartitionResponse.decode_eq (version : Int16) :
    decode version = (codec version).dec := by
  simp [decode, codec, Codec.unixTime]

theorem ProduceTopicResponse.decode_eq (version : Int16) :
    decode version = (codec version).dec := by
  simp [decode, codec, ProducePartitionResponse.decode_eq]

theorem ProduceResponse.decode_eq (version : Int16) : decode version = (codec version).dec := by
  simp [decode, codec, ProduceTopicResponse.decode_eq]

/-- The partition responses of a value that its version can carry: what is not on the wire is
zero, and times are whole milliseconds within the range of `UnixNano`. -/
def ProducePartitionResponse.Carried (version : Int16) (p : ProducePartitionResponse) : Prop :=
  InInt64 p.baseOffset ∧ InInt64 p.logStartOffset ∧
  (if 2 ≤ version then InInt64 p.logAppendTime ∧ 1000000 ∣ p.logAppendTime
    else p.logAppendTime = zeroTime) ∧
  (¬ 5 ≤ version → p.logStartOffset = 0)

instance (version : Int16) (p : ProducePartitionResponse) : Decidable (p.Carried version) :=
  inferInstanceAs (Decidable (InInt64 _ ∧ InInt64 _ ∧
    (if 2 ≤ version then InInt64 _ ∧ _ ∣ _ else _ = _) ∧ (¬ 5 ≤ version → _ = _)))

def ProduceResponse.Carried (r : ProduceResponse) : Prop :=
  (∀ t ∈ r.responses, ∀ p ∈ t.partitionResponses, p.Carried r.apiVersion) ∧
  WholeMillis r.throttleTime ∧ (¬ 1 ≤ r.apiVersion → r.throttleTime = 0)

/-- Names and numbers of elements that `Encode` and `Decode` accept. -/
def ProduceResponse.Limits (r : ProduceResponse) : Prop :=
  r.responses.length ≤ maxArrayLength ∧
  ∀ t ∈ r.responses, t.topic.length ≤ maxInt16 ∧ t.partitionResponses.length ≤ maxArrayLength

theorem unixMillis_eq {t : Int} (range : InInt64 t) : unixMillis t = t.tdiv 1000000 := by
  have same : t.bmod (2 ^ 64) = t := by
    obtain ⟨lower, upper⟩ := range
    simp only [Int.bmod]
    omega
  rw [unixMillis, same]

variable {version : Int16}

/-- From version 2 on the writer and the reader agree on the fields. -/
theorem ProducePartitionResponse.puts_eq (recent : 2 ≤ version)
    {p : ProducePartitionResponse} (carried : p.Carried version) :
    p.puts version = (codec version).lay p := by
  obtain ⟨-, -, time, -⟩ := carried
  rw [if_pos recent] at time
  simp [puts, codec, recent, Codec.unixTime, unixMillis_eq time.1]

theorem ProducePartitionResponse.fit {p : ProducePartitionResponse}
    (carried : p.Carried version) : (codec version).Fit p := by
  obtain ⟨base, start, time, absent⟩ := carried
  have timeFits : if 2 ≤ version then Codec.unixTime.Fit p.logAppendTime
      else p.logAppendTime = zeroTime := by
    split at time
    · obtain ⟨⟨lower, upper⟩, m, whole⟩ := time
      have quotient : p.logAppendTime.tdiv 1000000 = m := by
        rw [whole, Int.mul_tdiv_cancel_left _ (by decide)]
      have fits : Codec.unixTime.Fit p.logAppendTime := by
        simp only [Codec.unixTime, Codec.fit_iso, Codec.fit_int64, quotient, timeOfMillis_eq]
        omega
      rwa [if_pos ‹_›]
    · rwa [if_neg ‹_›]
  have startFits : if 5 ≤ version then InInt64 p.logStartOffset else p.logStartOffset = 0 := by
    split
    · exact start
    · exact absent ‹_›
  simp only [codec, Codec.fit_iso, Codec.fit_pair, Codec.fit_int32, Codec.fit_int16,
    Codec.fit_int64, Codec.fit_when, and_true, true_and]
  exact ⟨base, timeFits, startFits⟩

theorem ProduceTopicResponse.puts_eq {t : ProduceTopicResponse}
    (carried : ∀ p ∈ t.partitionResponses, p.Carried version)
    (agree : 2 ≤ version ∨ t.partitionResponses = []) : t.puts version = (codec version).lay t := by
  have items : t.partitionResponses.flatMap (ProducePartitionResponse.puts version) =
      t.partitionResponses.flatMap (ProducePartitionResponse.codec version).lay := by
    rcases agree with recent | empty
    · exact flatMap_congr fun p inside =>
        ProducePartitionResponse.puts_eq recent (carried p inside)
    · rw [empty]
      rfl
  simp [puts, codec, items]

variable {r : ProduceResponse}

theorem ProduceResponse.puts_eq (carried : r.Carried)
    (agree : 2 ≤ r.apiVersion ∨ ∀ t ∈ r.responses, t.partitionResponses = []) :
    r.puts = (codec r.apiVersion).lay r := by
  have items : r.responses.flatMap (ProduceTopicResponse.puts r.apiVersion) =
      r.responses.flatMap (ProduceTopicResponse.codec r.apiVersion).lay :=
    flatMap_congr fun t inside => ProduceTopicResponse.puts_eq (carried.1 t inside)
      (agree.imp_right fun empty => empty t inside)
  simp [puts, codec, items]

theorem ProduceResponse.fit_iff (carried : r.Carried) : (codec r.apiVersion).Fit r ↔ r.Limits := by
  obtain ⟨partitions, throttle, absent⟩ := carried
  have throttleFits : if 1 ≤ r.apiVersion then Codec.millis.Fit r.throttleTime
      else r.throttleTime = 0 := by
    split
    · exact Codec.fit_millis.mpr throttle
    · exact absent ‹_›
  simp only [codec, Codec.fit_iso, Codec.fit_pair, Codec.fit_when, throttleFits, and_true,
    Codec.fit_array, Limits]
  refine and_congr_right fun few => forall₂_congr fun t inside => ?_
  simp only [ProduceTopicResponse.codec, Codec.fit_iso, Codec.fit_pair, Codec.fit_string, and_true,
    Codec.fit_array]
  refine and_congr_right fun short => and_iff_left ?_
  intro p member
  exact ProducePartitionResponse.fit (partitions t inside p member)

/-- Before version 2 the reader takes eight bytes more for each partition than there are. -/
theorem ProducePartitionResponse.sizeOf_lay (old : ¬ 2 ≤ version) (p : ProducePartitionResponse) :
    sizeOf ((codec version).lay p) = sizeOf (p.puts version) + 8 := by
  have base : (Put.int64 p.baseOffset).raw.length = 8 := Put.length_rawInt64 _
  simp only [codec, puts, Codec.iso_lay, Codec.pair_lay, Codec.int32_lay, Codec.int16_lay,
    Codec.int64_lay, Codec.when_lay, if_neg old, sizeOf_append, sizeOf_cons, sizeOf_nil, base]
  omega

theorem ProduceTopicResponse.sizeOf_lay (old : ¬ 2 ≤ version) (t : ProduceTopicResponse) :
    sizeOf ((codec version).lay t) =
      sizeOf (t.puts version) + (t.partitionResponses.map fun _ => 8).sum := by
  have items : (t.partitionResponses.map fun p =>
      sizeOf ((ProducePartitionResponse.codec version).lay p)).sum =
      (t.partitionResponses.map fun p => sizeOf (p.puts version)).sum +
        (t.partitionResponses.map fun _ => 8).sum := by
    simp only [ProducePartitionResponse.sizeOf_lay old, sum_map_add]
  simp only [codec, puts, Codec.iso_lay, Codec.pair_lay, Codec.string_lay, Codec.array_lay,
    sizeOf_append, sizeOf_cons, sizeOf_nil, sizeOf_flatMap, items]
  omega

theorem ProduceResponse.sizeOf_lay (old : ¬ 2 ≤ r.apiVersion) :
    sizeOf ((codec r.apiVersion).lay r) = sizeOf r.puts +
      (r.responses.map fun t => (t.partitionResponses.map fun _ => 8).sum).sum := by
  have items : (r.responses.map fun t =>
      sizeOf ((ProduceTopicResponse.codec r.apiVersion).lay t)).sum =
      (r.responses.map fun t => sizeOf (t.puts r.apiVersion)).sum +
        (r.responses.map fun t => (t.partitionResponses.map fun _ => 8).sum).sum := by
    simp only [ProduceTopicResponse.sizeOf_lay old, sum_map_add]
  have throttle : sizeOf ((Codec.when (1 ≤ r.apiVersion) .millis 0).lay r.throttleTime) =
      sizeOf (if 1 ≤ r.apiVersion then [.int32 (millis r.throttleTime)] else []) := rfl
  simp only [codec, puts, Codec.iso_lay, Codec.pair_lay, Codec.array_lay, sizeOf_append,
    sizeOf_cons, sizeOf_nil, sizeOf_flatMap, items, throttle]
  omega

theorem ProducePartitionResponse.puts_plain (version : Int16) (p : ProducePartitionResponse) :
    ∀ op ∈ p.puts version, op.Plain := by
  unfold puts
  split <;> split <;> simp [Put.Plain]

theorem ProduceResponse.puts_plain (r : ProduceResponse) : ∀ op ∈ r.puts, op.Plain := by
  have topics (t : ProduceTopicResponse) : ∀ op ∈ t.puts r.apiVersion, op.Plain := by
    simp only [ProduceTopicResponse.puts, forall_mem_append, forall_mem_flatMap]
    exact ⟨by simp [Put.Plain], fun p _ => p.puts_plain r.apiVersion⟩
  simp only [puts, forall_mem_append, forall_mem_flatMap]
  refine ⟨⟨by simp [Put.Plain], fun t _ => topics t⟩, ?_⟩
  split <;> simp [Put.Plain]

/-- A produce response survives from version 2 on, and before only if it has no partitions. -/
theorem produce_response_survives_iff (r : ProduceResponse) (carried : r.Carried) :
    RoundTrips r.puts (ProduceResponse.decode r.apiVersion) r ↔
      r.Limits ∧ (2 ≤ r.apiVersion ∨ ∀ t ∈ r.responses, t.partitionResponses = []) := by
  rw [ProduceResponse.decode_eq]
  constructor
  · intro survives
    have agree : 2 ≤ r.apiVersion ∨ ∀ t ∈ r.responses, t.partitionResponses = [] := by
      by_contra disagree
      obtain ⟨old, nonempty⟩ := not_or.mp disagree
      refine Codec.not_roundTrips _ r.puts_plain ?_ survives
      rw [ProduceResponse.sizeOf_lay old]
      intro same
      have none : (r.responses.map fun t => (t.partitionResponses.map fun _ => 8).sum).sum = 0 := by
        omega
      apply nonempty
      intro t inside
      have zero := sum_eq_zero_iff.mp none _ (mem_map_of_mem inside)
      cases partitions : t.partitionResponses with
      | nil => rfl
      | cons p ps =>
        rw [partitions, map_cons, sum_cons] at zero
        omega
    rw [Codec.roundTrips_iff _ (ProduceResponse.puts_eq carried agree) rfl] at survives
    exact ⟨(ProduceResponse.fit_iff carried).mp survives, agree⟩
  · rintro ⟨limits, agree⟩
    rw [Codec.roundTrips_iff _ (ProduceResponse.puts_eq carried agree) rfl]
    exact (ProduceResponse.fit_iff carried).mpr limits

/-- A time before 1970 and an offset at the advertised versions from 2 on. -/
theorem produce_response_survives_at_five :
    RoundTrips (ProduceResponse.puts
        ⟨5, [⟨[116], [⟨0, 0, 7, -1001000000, 3⟩, ⟨1, 6, -1, 0, 0⟩]⟩], 2000000⟩)
      (ProduceResponse.decode 5)
      ⟨5, [⟨[116], [⟨0, 0, 7, -1001000000, 3⟩, ⟨1, 6, -1, 0, 0⟩]⟩], 2000000⟩ :=
  (produce_response_survives_iff _ ⟨by decide, ⟨2, by decide⟩, by decide⟩).mpr
    ⟨⟨by decide, by decide⟩, .inl (by decide)⟩

/-- The offset that the broker filled in is not written at version 0, and looked for. -/
theorem produce_response_lost_at_zero :
    let r : ProduceResponse := ⟨0, [⟨[116], [⟨0, 0, 7, zeroTime, 0⟩]⟩], 0⟩
    r.Carried ∧ ((encode r.puts).toOption.map fun b =>
      ((ProduceResponse.decode 0).run (newDecoder b)).stopped) = some (some errInsufficientData) :=
  ⟨⟨by decide, ⟨0, by decide⟩, by decide⟩, by decide +kernel⟩

end Produced

end Jocko.Protocol
