import Jocko.Protocol.Codec
import Jocko.Protocol.Messages

namespace Jocko.Protocol

open Go ByteDecoder List Codec

section LeaderAndISR

def PartitionState.puts (version : Int16) (p : PartitionState) : List Put :=
  [.string p.topic, .int32 p.partition, .int32 p.controllerEpoch, .int32 p.leader,
    .int32 p.leaderEpoch, .int32Array p.isr, .int32 p.zkVersion, .int32Array p.replicas] ++
    (if 1 ≤ version then [.bool p.isNew] else [])

def LiveLeader.puts (l : LiveLeader) : List Put := [.int32 l.id, .string l.host, .int32 l.port]

/-- `LeaderAndISRRequest.Encode` -/
def LeaderAndISRRequest.puts (r : LeaderAndISRRequest) : List Put :=
  [.int32 r.controllerID, .int32 r.controllerEpoch, .arrayLength r.partitionStates.length] ++
    r.partitionStates.flatMap (PartitionState.puts r.apiVersion) ++
    [.arrayLength r.liveLeaders.length] ++ r.liveLeaders.flatMap LiveLeader.puts

/-- `IsNew` is read at no version. -/
def PartitionState.decode : Call ByteDecoder PartitionState := do
  let topic ← string
  let partition ← int32
  let controllerEpoch ← int32
  let leader ← int32
  let leaderEpoch ← int32
  let isr ← int32Array
  let zkVersion ← int32
  let replicas ← int32Array
  return { topic, partition, controllerEpoch, leader, leaderEpoch, isr, zkVersion, replicas,
           isNew := false }

def LiveLeader.decode : Call ByteDecoder LiveLeader := do
  let id ← int32
  let host ← string
  let port ← int32
  return { id, host, port }

/-- `LeaderAndISRRequest.Decode` -/
def LeaderAndISRRequest.decode (version : Int16) : Call ByteDecoder LeaderAndISRRequest := do
  let controllerID ← int32
  let controllerEpoch ← int32
  let partitionStates ← array PartitionState.decode
  let liveLeaders ← array LiveLeader.decode
  return { apiVersion := version, controllerID, controllerEpoch, partitionStates, liveLeaders }

def PartitionState.codec : Codec PartitionState :=
  (Codec.string.pair (Codec.int32.pair (Codec.int32.pair (Codec.int32.pair (Codec.int32.pair
    (Codec.int32Array.pair (Codec.int32.pair .int32Array))))))).iso
    (fun p => ⟨p.1, p.2.1, p.2.2.1, p.2.2.2.1, p.2.2.2.2.1, p.2.2.2.2.2.1, p.2.2.2.2.2.2.1,
      p.2.2.2.2.2.2.2, false⟩)
    (fun p => (p.topic, p.partition, p.controllerEpoch, p.leader, p.leaderEpoch, p.isr, p.zkVersion,
      p.replicas))

def LiveLeader.codec : Codec LiveLeader :=
  (Codec.int32.pair (Codec.string.pair .int32)).iso (fun p => ⟨p.1, p.2.1, p.2.2⟩)
    (fun l => (l.id, l.host, l.port))

def LeaderAndISRRequest.codec (version : Int16) : Codec LeaderAndISRRequest :=
  (Codec.int32.pair (Codec.int32.pair (PartitionState.codec.array.pair
    LiveLeader.codec.array))).iso
    (fun p => ⟨version, p.1, p.2.1, p.2.2.1, p.2.2.2⟩)
    (fun r => (r.controllerID, r.controllerEpoch, r.partitionStates, r.liveLeaders))

theorem PartitionState.decode_eq : PartitionState.decode = PartitionState.codec.dec := by
  simp [decode, codec]

theorem LiveLeader.coded : puts = codec.lay ∧ decode = codec.dec := by
  simp [funext_iff, puts, decode, codec]

theorem LeaderAndISRRequest.decode_eq (version : Int16) : decode version = (codec version).dec := by
  simp [decode, codec, PartitionState.decode_eq, LiveLeader.coded]

theorem LeaderAndISRRequest.puts_eq {r : LeaderAndISRRequest}
    (agree : ¬ 1 ≤ r.apiVersion ∨ r.partitionStates = []) :
    r.puts = (codec r.apiVersion).lay r := by
  have items : r.partitionStates.flatMap (PartitionState.puts r.apiVersion) =
      r.partitionStates.flatMap PartitionState.codec.lay := by
    rcases agree with old | empty
    · refine flatMap_congr fun p _ => ?_
      simp [PartitionState.puts, PartitionState.codec, old]
    · rw [empty]
      rfl
  simp [puts, codec, items, LiveLeader.coded]

/-- From version 1 on the flag of each partition state is one byte that nobody takes. -/
theorem PartitionState.sizeOf_puts {version : Int16} (recent : 1 ≤ version) (p : PartitionState) :
    sizeOf (p.puts version) = sizeOf (codec.lay p) + 1 := by
  simp only [puts, codec, if_pos recent, iso_lay, pair_lay, string_lay,
    int32_lay, int32Array_lay, sizeOf_append, sizeOf_cons, sizeOf_nil]
  rfl

theorem LeaderAndISRRequest.sizeOf_puts {r : LeaderAndISRRequest} (recent : 1 ≤ r.apiVersion) :
    sizeOf r.puts = sizeOf ((codec r.apiVersion).lay r) + (r.partitionStates.map fun _ => 1).sum := by
  have items : (r.partitionStates.map fun p => sizeOf (p.puts r.apiVersion)).sum =
      (r.partitionStates.map fun p => sizeOf (PartitionState.codec.lay p)).sum +
        (r.partitionStates.map fun _ => 1).sum := by
    simp only [PartitionState.sizeOf_puts recent, sum_map_add]
  simp only [puts, codec, LiveLeader.coded, iso_lay, pair_lay, int32_lay,
    array_lay, sizeOf_append, sizeOf_cons, sizeOf_nil, sizeOf_flatMap, items]
  omega

theorem LeaderAndISRRequest.puts_plain (r : LeaderAndISRRequest) : ∀ op ∈ r.puts, op.Plain := by
  have states (p : PartitionState) : ∀ op ∈ p.puts r.apiVersion, op.Plain := by
    unfold PartitionState.puts
    split <;> simp [Put.Plain]
  simp only [puts, forall_mem_append, forall_mem_flatMap]
  refine ⟨⟨⟨by simp [Put.Plain], fun p _ => states p⟩, by simp [Put.Plain]⟩, fun l _ => ?_⟩
  simp [LiveLeader.puts, Put.Plain]

/-- Names and numbers of elements that `Encode` and `Decode` accept. -/
def LeaderAndISRRequest.Limits (r : LeaderAndISRRequest) : Prop :=
  r.partitionStates.length ≤ maxArrayLength ∧
  (∀ p ∈ r.partitionStates, p.topic.length ≤ maxInt16 ∧ p.isr.length ≤ maxInt32 ∧
    p.replicas.length ≤ maxInt32) ∧
  r.liveLeaders.length ≤ maxArrayLength ∧ ∀ l ∈ r.liveLeaders, l.host.length ≤ maxInt16

theorem LeaderAndISRRequest.survives_iff (r : LeaderAndISRRequest) :
    RoundTrips r.puts (decode r.apiVersion) r ↔ r.Limits ∧
      (∀ p ∈ r.partitionStates, p.isNew = false) ∧
      (¬ 1 ≤ r.apiVersion ∨ r.partitionStates = []) := by
  have fit_state (p : PartitionState) : PartitionState.codec.Fit p ↔
      (p.topic.length ≤ maxInt16 ∧ p.isr.length ≤ maxInt32 ∧ p.replicas.length ≤ maxInt32) ∧
        p.isNew = false := by
    obtain ⟨topic, partition, controllerEpoch, leader, leaderEpoch, isr, zkVersion, replicas, isNew⟩ :=
      p
    simp [PartitionState.codec, eq_comm]
  have fit : (codec r.apiVersion).Fit r ↔
      r.Limits ∧ ∀ p ∈ r.partitionStates, p.isNew = false := by
    simp only [codec, fit_iso, fit_pair, fit_int32, fit_array, fit_state,
      LiveLeader.codec, fit_string, Limits, true_and, and_true]
    constructor
    · rintro ⟨⟨few, states⟩, leaders⟩
      exact ⟨⟨few, fun p inside => (states p inside).1, leaders⟩, fun p inside => (states p inside).2⟩
    · rintro ⟨⟨few, states, leaders⟩, old⟩
      exact ⟨⟨few, fun p inside => ⟨states p inside, old p inside⟩⟩, leaders⟩
  rw [decode_eq]
  constructor
  · intro survives
    have agree : ¬ 1 ≤ r.apiVersion ∨ r.partitionStates = [] := by
      by_contra disagree
      obtain ⟨recent, nonempty⟩ := not_or.mp disagree
      refine not_roundTrips _ r.puts_plain ?_ survives
      rw [sizeOf_puts (not_not.mp recent)]
      obtain ⟨p, ps, states⟩ := exists_cons_of_ne_nil nonempty
      rw [states, map_cons, sum_cons]
      omega
    rw [roundTrips_iff _ (puts_eq agree) rfl, fit] at survives
    exact ⟨survives.1, survives.2, agree⟩
  · rintro ⟨limits, old, agree⟩
    rw [roundTrips_iff _ (puts_eq agree) rfl, fit]
    exact ⟨limits, old⟩

def LeaderAndISRPartition.puts (p : LeaderAndISRPartition) : List Put :=
  [.string p.topic, .int32 p.partition, .int16 p.errorCode]

/-- `LeaderAndISRResponse.Encode` -/
def LeaderAndISRResponse.puts (r : LeaderAndISRResponse) : List Put :=
  [.int16 r.errorCode, .arrayLength r.partitions.length] ++
    r.partitions.flatMap LeaderAndISRPartition.puts

def LeaderAndISRPartition.decode : Call ByteDecoder LeaderAndISRPartition := do
  let topic ← string
  let partition ← int32
  let errorCode ← int16
  return { topic, partition, errorCode }

/-- `LeaderAndISRResponse.Decode` -/
def LeaderAndISRResponse.decode (version : Int16) : Call ByteDecoder LeaderAndISRResponse := do
  let errorCode ← int16
  let partitions ← array LeaderAndISRPartition.decode
  return { apiVersion := version, errorCode, partitions }

def LeaderAndISRPartition.codec : Codec LeaderAndISRPartition :=
  (Codec.string.pair (Codec.int32.pair .int16)).iso (fun p => ⟨p.1, p.2.1, p.2.2⟩)
    (fun p => (p.topic, p.partition, p.errorCode))

def LeaderAndISRResponse.codec (version : Int16) : Codec LeaderAndISRResponse :=
  (Codec.int16.pair LeaderAndISRPartition.codec.array).iso
    (fun p => ⟨version, p.1, p.2⟩) (fun r => (r.errorCode, r.partitions))

theorem LeaderAndISRPartition.coded : puts = codec.lay ∧ decode = codec.dec := by
  simp [funext_iff, puts, decode, codec]

def LeaderAndISRResponse.Limits (r : LeaderAndISRResponse) : Prop :=
  r.partitions.length ≤ maxArrayLength ∧ ∀ p ∈ r.partitions, p.topic.length ≤ maxInt16

theorem LeaderAndISRResponse.survives_iff (r : LeaderAndISRResponse) :
    RoundTrips r.puts (decode r.apiVersion) r ↔ r.Limits := by
  refine (codec r.apiVersion).carries
    (by simp [puts, decode, codec, LeaderAndISRPartition.coded]) ?_
  simp [codec, LeaderAndISRPartition.codec, Limits]

end LeaderAndISR

section StopReplica

structure StopReplicaPartition where
  topic : Str
  partition : Int32

structure StopReplicaRequest where
  apiVersion : Int16
  controllerID : Int32
  controllerEpoch : Int32
  deletePartitions : Bool
  partitions : List StopReplicaPartition

structure StopReplicaResponsePartition where
  topic : Str
  partition : Int32
  errorCode : Int16

structure StopReplicaResponse where
  errorCode : Int16
  partitions : List StopReplicaResponsePartition

def StopReplicaPartition.puts (p : StopReplicaPartition) : List Put :=
  [.string p.topic, .int32 p.partition]

/-- `StopReplicaRequest.Encode` -/
def StopReplicaRequest.puts (r : StopReplicaRequest) : List Put :=
  [.int32 r.controllerID, .int32 r.controllerEpoch, .int8 (if r.deletePartitions then 1 else 0),
    .arrayLength r.partitions.length] ++
    r.partitions.flatMap StopReplicaPartition.puts

def StopReplicaPartition.decode : Call ByteDecoder StopReplicaPartition := do
  let topic ← string
  let partition ← int32
  return { topic, partition }

/-- `StopReplicaRequest.Decode` -/
def StopReplicaRequest.decode (version : Int16) : Call ByteDecoder StopReplicaRequest := do
  let controllerID ← int32
  let controllerEpoch ← int32
  let deletePartitions ← bool
  let partitions ← array StopReplicaPartition.decode
  return { apiVersion := version, controllerID, controllerEpoch, deletePartitions, partitions }

def StopReplicaPartition.codec : Codec StopReplicaPartition :=
  (Codec.string.pair .int32).iso (fun p => ⟨p.1, p.2⟩) (fun p => (p.topic, p.partition))

/-- A truth value that is written as a number. -/
@[simps! dec lay Ok] def Codec.flag : Codec Bool :=
  prim ByteDecoder.bool (fun b => .int8 (if b then 1 else 0)) (fun _ => True) (fun _ => trivial)
    (fun b _ => by
      cases b with
      | false => exact Reads.bool false
      | true => exact Reads.bool true)
    Uses.bool

def StopReplicaRequest.codec (version : Int16) : Codec StopReplicaRequest :=
  (Codec.int32.pair (Codec.int32.pair (Codec.flag.pair
    StopReplicaPartition.codec.array))).iso
    (fun p => ⟨version, p.1, p.2.1, p.2.2.1, p.2.2.2⟩)
    (fun r => (r.controllerID, r.controllerEpoch, r.deletePartitions, r.partitions))

theorem StopReplicaPartition.coded : puts = codec.lay ∧ decode = codec.dec := by
  simp [funext_iff, puts, decode, codec]

def StopReplicaRequest.Limits (r : StopReplicaRequest) : Prop :=
  r.partitions.length ≤ maxArrayLength ∧ ∀ p ∈ r.partitions, p.topic.length ≤ maxInt16

theorem StopReplicaRequest.survives_iff (r : StopReplicaRequest) :
    RoundTrips r.puts (decode r.apiVersion) r ↔ r.Limits := by
  refine (codec r.apiVersion).carries
    (by simp [puts, decode, codec, StopReplicaPartition.coded]) ?_
  have flag (b : Bool) : flag.Fit b := by simp [Fit, Put.Fits]
  simp [codec, StopReplicaPartition.codec, Limits, flag]

def StopReplicaResponsePartition.puts (p : StopReplicaResponsePartition) : List Put :=
  [.string p.topic, .int32 p.partition, .int16 p.errorCode]

/-- `StopReplicaResponse.Encode` -/
def StopReplicaResponse.puts (r : StopReplicaResponse) : List Put :=
  [.int16 r.errorCode, .arrayLength r.partitions.length] ++
    r.partitions.flatMap StopReplicaResponsePartition.puts

/-- The elements of the slice of pointers are `nil`, so that assigning the first field panics
whatever was read for it. -/
def StopReplicaResponsePartition.decode : Call ByteDecoder StopReplicaResponsePartition := do
  let _ ← attempt string
  stop (.panic "invalid memory address or nil pointer dereference")

/-- `StopReplicaResponse.Decode` -/
def StopReplicaResponse.decode : Call ByteDecoder StopReplicaResponse := do
  let errorCode ← int16
  let partitions ← array StopReplicaResponsePartition.decode
  return { errorCode, partitions }

def StopReplicaResponsePartition.codec : Codec StopReplicaResponsePartition where
  dec := StopReplicaResponsePartition.decode
  lay := StopReplicaResponsePartition.puts
  Ok _ := False
  plain p := by simp [puts, Put.Plain]
  reads _ impossible := impossible.elim
  uses := by
    intro d d' value _ ran
    obtain ⟨_, d₁, -, stopped⟩ := bind_eq_ok ran
    cases stopped

def StopReplicaResponse.codec : Codec StopReplicaResponse :=
  (Codec.int16.pair StopReplicaResponsePartition.codec.array).iso
    (fun p => ⟨p.1, p.2⟩) (fun r => (r.errorCode, r.partitions))

theorem StopReplicaResponse.decode_eq : StopReplicaResponse.decode = codec.dec := by
  simp [decode, codec, StopReplicaResponsePartition.codec]

theorem StopReplicaResponse.puts_eq (r : StopReplicaResponse) : r.puts = codec.lay r := by
  simp [puts, codec, StopReplicaResponsePartition.codec]

theorem StopReplicaResponse.survives_iff (r : StopReplicaResponse) :
    RoundTrips r.puts decode r ↔ r.partitions = [] := by
  rw [roundTrips_iff _ r.puts_eq decode_eq]
  have never (p : StopReplicaResponsePartition) : ¬ StopReplicaResponsePartition.codec.Fit p :=
    fun fit => fit.2
  simp only [codec, fit_iso, fit_pair, fit_int16, fit_array, true_and,
    and_true]
  constructor
  · rintro ⟨-, none⟩
    exact eq_nil_iff_forall_not_mem.mpr fun p inside => never p (none p inside)
  · intro empty
    rw [empty]
    exact ⟨Nat.zero_le _, fun _ inside => (not_mem_nil inside).elim⟩

end StopReplica

/-- Which of the controller's messages survive. -/
theorem controller_messages_survive_iff (lead : LeaderAndISRRequest) (led : LeaderAndISRResponse)
    (stop : StopReplicaRequest) (stopped : StopReplicaResponse) :
    (RoundTrips lead.puts (LeaderAndISRRequest.decode lead.apiVersion) lead ↔
      lead.Limits ∧ (∀ p ∈ lead.partitionStates, p.isNew = false) ∧
        (¬ 1 ≤ lead.apiVersion ∨ lead.partitionStates = [])) ∧
    (RoundTrips led.puts (LeaderAndISRResponse.decode led.apiVersion) led ↔ led.Limits) ∧
    (RoundTrips stop.puts (StopReplicaRequest.decode stop.apiVersion) stop ↔ stop.Limits) ∧
    (RoundTrips stopped.puts StopReplicaResponse.decode stopped ↔ stopped.partitions = []) :=
  ⟨lead.survives_iff, led.survives_iff, stop.survives_iff, stopped.survives_iff⟩

/-- A new partition at version 1: its flag is written and not read, so that it is taken for the
number of live leaders. -/
theorem leader_and_isr_request_lost_at_one :
    let r : LeaderAndISRRequest := ⟨1, 1, 2, [⟨[116], 0, 1, 1, 1, [1], 1, [1], true⟩], []⟩
    ((encode r.puts).toOption.map fun b =>
      ((LeaderAndISRRequest.decode 1).run (newDecoder b)).stopped) =
      some (some errInsufficientData) := by
  decide +kernel

end Jocko.Protocol
