import Jocko.Protocol.DataPlane

namespace Jocko.Protocol

open Go ByteDecoder List

section JoinGroup

def GroupProtocol.puts (p : GroupProtocol) : List Put :=
  [.string p.protocolName, .bytes p.protocolMetadata]

/-- `JoinGroupRequest.Encode`, which does not write how many protocols follow. -/
def JoinGroupRequest.puts (r : JoinGroupRequest) : List Put :=
  [.string r.groupID, .int32 r.sessionTimeout] ++
    (if 1 ≤ r.apiVersion then [.int32 r.rebalanceTimeout] else []) ++
    [.string r.memberID, .string r.protocolType] ++ r.groupProtocols.flatMap GroupProtocol.puts

def GroupProtocol.decode : Call ByteDecoder GroupProtocol := do
  let protocolName ← string
  let protocolMetadata ← bytes
  return { protocolName, protocolMetadata }

/-- `JoinGroupRequest.Decode` -/
def JoinGroupRequest.decode (version : Int16) : Call ByteDecoder JoinGroupRequest := do
  let groupID ← string
  let sessionTimeout ← int32
  let rebalanceTimeout ← when (1 ≤ version) int32 0
  let memberID ← string
  let protocolType ← string
  let groupProtocols ← array GroupProtocol.decode
  return { apiVersion := version, groupID, sessionTimeout, rebalanceTimeout, memberID,
           protocolType, groupProtocols }

def GroupProtocol.codec : Codec GroupProtocol :=
  (Codec.string.pair .bytes).iso (fun p => ⟨p.1, p.2⟩)
    (fun p => (p.protocolName, p.protocolMetadata))

def JoinGroupRequest.codec (version : Int16) : Codec JoinGroupRequest :=
  (Codec.string.pair (Codec.int32.pair ((Codec.when (1 ≤ version) .int32 0).pair
    (Codec.string.pair (Codec.string.pair GroupProtocol.codec.array))))).iso
    (fun p => ⟨version, p.1, p.2.1, p.2.2.1, p.2.2.2.1, p.2.2.2.2.1, p.2.2.2.2.2⟩)
    (fun r => (r.groupID, r.sessionTimeout, r.rebalanceTimeout, r.memberID, r.protocolType,
      r.groupProtocols))

theorem GroupProtocol.coded : puts = codec.lay ∧ decode = codec.dec := by
  simp [funext_iff, puts, decode, codec]

theorem JoinGroupRequest.decode_eq (version : Int16) : decode version = (codec version).dec := by
  simp [decode, codec, GroupProtocol.coded]

variable (r : JoinGroupRequest)

theorem JoinGroupRequest.puts_plain : ∀ op ∈ r.puts, op.Plain := by
  simp only [puts, forall_mem_append, forall_mem_flatMap]
  refine ⟨⟨⟨by simp [Put.Plain], ?_⟩, by simp [Put.Plain]⟩, fun p _ => by
    simp [GroupProtocol.puts, Put.Plain]⟩
  split <;> simp [Put.Plain]

/-- The reader takes four bytes for the number of protocols. -/
theorem JoinGroupRequest.sizeOf_lay :
    sizeOf ((codec r.apiVersion).lay r) = sizeOf r.puts + 4 := by
  have number : (Put.arrayLength r.groupProtocols.length).raw.length = 4 := Put.length_rawInt32 _
  simp only [puts, codec, GroupProtocol.coded, Codec.iso_lay, Codec.pair_lay, Codec.string_lay,
    Codec.int32_lay, Codec.when_lay, Codec.array_lay, sizeOf_append, sizeOf_cons, sizeOf_nil,
    sizeOf_flatMap, number]
  omega

theorem JoinGroupRequest.not_survives :
    ¬ RoundTrips r.puts (decode r.apiVersion) r := by
  rw [decode_eq]
  refine Codec.not_roundTrips _ r.puts_plain ?_
  rw [sizeOf_lay]
  omega

def Member.puts (m : Member) : List Put := [.string m.memberID, .bytes m.memberMetadata]

/-- `JoinGroupResponse.Encode`: `ThrottleTime` is written from version 1 on. -/
def JoinGroupResponse.puts (r : JoinGroupResponse) : List Put :=
  (if 1 ≤ r.apiVersion then [.int32 (millis r.throttleTime)] else []) ++
    [.int16 r.errorCode, .int32 r.generationID, .string r.groupProtocol, .string r.leaderID,
      .string r.memberID, .arrayLength r.members.length] ++ r.members.flatMap Member.puts

def Member.decode : Call ByteDecoder Member := do
  let memberID ← string
  let memberMetadata ← bytes
  return { memberID, memberMetadata }

/-- `JoinGroupResponse.Decode`: `ThrottleTime` is read from version 2 on. -/
def JoinGroupResponse.decode (version : Int16) : Call ByteDecoder JoinGroupResponse := do
  let throttleTime ← when (2 ≤ version) (do return ofMillis (← int32)) 0
  let errorCode ← int16
  let generationID ← int32
  let groupProtocol ← string
  let leaderID ← string
  let memberID ← string
  let members ← array Member.decode
  return { apiVersion := version, throttleTime, errorCode, generationID, groupProtocol, leaderID,
           memberID, members }

def Member.codec : Codec Member :=
  (Codec.string.pair .bytes).iso (fun p => ⟨p.1, p.2⟩)
    (fun m => (m.memberID, m.memberMetadata))

def JoinGroupResponse.codec (version : Int16) : Codec JoinGroupResponse :=
  ((Codec.when (2 ≤ version) .millis 0).pair (Codec.int16.pair (Codec.int32.pair
    (Codec.string.pair (Codec.string.pair (Codec.string.pair
      Member.codec.array)))))).iso
    (fun p => ⟨version, p.1, p.2.1, p.2.2.1, p.2.2.2.1, p.2.2.2.2.1, p.2.2.2.2.2.1,
      p.2.2.2.2.2.2⟩)
    (fun r => (r.throttleTime, r.errorCode, r.generationID, r.groupProtocol, r.leaderID, r.memberID,
      r.members))

theorem Member.coded : puts = codec.lay ∧ decode = codec.dec := by
  simp [funext_iff, puts, decode, codec]

theorem JoinGroupResponse.decode_eq (version : Int16) : decode version = (codec version).dec := by
  simp [decode, codec, Member.coded]

theorem JoinGroupResponse.puts_eq {r : JoinGroupResponse}
    (agree : 1 ≤ r.apiVersion ↔ 2 ≤ r.apiVersion) : r.puts = (codec r.apiVersion).lay r := by
  simp [puts, codec, Member.coded, agree]

theorem JoinGroupResponse.puts_plain (r : JoinGroupResponse) : ∀ op ∈ r.puts, op.Plain := by
  simp only [puts, forall_mem_append, forall_mem_flatMap]
  refine ⟨⟨?_, by simp [Put.Plain]⟩, fun m _ => by simp [Member.puts, Put.Plain]⟩
  split <;> simp [Put.Plain]

/-- At version 1 the throttle time is written and not read. -/
theorem JoinGroupResponse.sizeOf_puts {r : JoinGroupResponse} (recent : 1 ≤ r.apiVersion)
    (old : ¬ 2 ≤ r.apiVersion) : sizeOf r.puts = sizeOf ((codec r.apiVersion).lay r) + 4 := by
  have throttle : (Put.int32 (millis r.throttleTime)).raw.length = 4 := Put.length_rawInt32 _
  simp only [puts, codec, Member.coded, Codec.iso_lay, Codec.pair_lay, Codec.string_lay,
    Codec.int16_lay, Codec.int32_lay, Codec.when_lay, Codec.array_lay, sizeOf_append, sizeOf_cons,
    sizeOf_nil, sizeOf_flatMap, if_pos recent, if_neg old, throttle]
  omega

def JoinGroupResponse.Limits (r : JoinGroupResponse) : Prop :=
  (if 2 ≤ r.apiVersion then WholeMillis r.throttleTime else r.throttleTime = 0) ∧
  r.groupProtocol.length ≤ maxInt16 ∧ r.leaderID.length ≤ maxInt16 ∧
  r.memberID.length ≤ maxInt16 ∧ r.members.length ≤ maxArrayLength ∧
  ∀ m ∈ r.members, m.memberID.length ≤ maxInt16 ∧ (m.memberMetadata.getD []).length ≤ maxInt32

theorem JoinGroupResponse.survives_iff (r : JoinGroupResponse) :
    RoundTrips r.puts (decode r.apiVersion) r ↔
      r.Limits ∧ (1 ≤ r.apiVersion → 2 ≤ r.apiVersion) := by
  have fit : (codec r.apiVersion).Fit r ↔ r.Limits := by
    simp [codec, Member.codec, Limits]
  have lower : 2 ≤ r.apiVersion → 1 ≤ r.apiVersion := Int16.le_trans (by decide)
  rw [decode_eq]
  constructor
  · intro survives
    have agree : 1 ≤ r.apiVersion → 2 ≤ r.apiVersion := by
      intro recent
      by_contra old
      refine Codec.not_roundTrips _ r.puts_plain ?_ survives
      rw [sizeOf_puts recent old]
      omega
    rw [Codec.roundTrips_iff _ (puts_eq ⟨agree, lower⟩) rfl, fit] at survives
    exact ⟨survives, agree⟩
  · rintro ⟨limits, agree⟩
    rw [Codec.roundTrips_iff _ (puts_eq ⟨agree, lower⟩) rfl, fit]
    exact limits

structure HeartbeatResponse where
  apiVersion : Int16
  throttleTime : Int
  errorCode : Int16

/-- `HeartbeatResponse.Encode` -/
def HeartbeatResponse.puts (r : HeartbeatResponse) : List Put := [.int16 r.errorCode]

/-- `HeartbeatResponse.Decode`, which divides by a millisecond where the others multiply. -/
def HeartbeatResponse.decode (version : Int16) : Call ByteDecoder HeartbeatResponse := do
  let throttleTime ← when (1 ≤ version) (do return (← int32).toInt.tdiv 1000000) 0
  let errorCode ← int16
  return { apiVersion := version, throttleTime, errorCode }

theorem HeartbeatResponse.survives_iff (r : HeartbeatResponse) :
    RoundTrips r.puts (decode r.apiVersion) r ↔ ¬ 1 ≤ r.apiVersion ∧ r.throttleTime = 0 := by
  by_cases recent : 1 ≤ r.apiVersion
  · have uses : Uses (decode r.apiVersion) (fun _ => 6) fun _ => True := by
      unfold decode when
      rw [if_pos recent]
      have throttle : Uses (do return (← int32).toInt.tdiv 1000000) (fun _ => 4) fun _ => True :=
        Uses.int32.map fun _ _ => ⟨trivial, rfl⟩
      exact throttle.bind (t := fun _ _ => 2) (Q := fun _ _ => True)
        (fun t _ => Uses.int16.map fun _ _ => ⟨trivial, rfl⟩) fun _ _ _ _ => ⟨trivial, rfl⟩
    have lost : ¬ RoundTrips r.puts (decode r.apiVersion) r := by
      intro survives
      obtain ⟨-, -, same⟩ := survives.uses (by simp [puts, Put.Plain]) uses
      have length : sizeOf r.puts = 2 := by simp [puts, Put.raw]
      omega
    simp [recent, lost]
  · have same : decode r.apiVersion = (Codec.int16.iso
        (fun e => (⟨r.apiVersion, 0, e⟩ : HeartbeatResponse)) (·.errorCode) fun _ => rfl).dec := by
      simp [decode, when, recent]
    rw [same, Codec.roundTrips_iff _ (by simp [puts]) rfl]
    obtain ⟨version, throttle, code⟩ := r
    simp [recent, eq_comm]

end JoinGroup

/-- Which messages of the join protocol survive: no request, and responses only at the versions
at which nothing about throttling is written or read. -/
theorem group_messages_survive_iff (join : JoinGroupRequest) (joined : JoinGroupResponse)
    (beat : HeartbeatResponse) :
    ¬ RoundTrips join.puts (JoinGroupRequest.decode join.apiVersion) join ∧
    (RoundTrips joined.puts (JoinGroupResponse.decode joined.apiVersion) joined ↔
      joined.Limits ∧ (1 ≤ joined.apiVersion → 2 ≤ joined.apiVersion)) ∧
    (RoundTrips beat.puts (HeartbeatResponse.decode beat.apiVersion) beat ↔
      ¬ 1 ≤ beat.apiVersion ∧ beat.throttleTime = 0) :=
  ⟨join.not_survives, joined.survives_iff, beat.survives_iff⟩

/-- A member that offers one protocol: the number of protocols is not there, and the first bytes
of the protocol are taken for it. -/
theorem join_group_request_lost :
    let r : JoinGroupRequest := ⟨0, [103], 10000, 0, [], [99], [⟨[114], some [1]⟩]⟩
    ((encode r.puts).toOption.map fun b =>
      ((JoinGroupRequest.decode 0).run (newDecoder b)).stopped) =
      some (some errInsufficientData) := by
  decide +kernel

section Offsets

structure OffsetCommitPartitionRequest where
  partition : Int32
  offset : Int
  timestamp : Int
  metadata : Option Str

structure OffsetCommitTopicRequest where
  topic : Str
  partitions : List OffsetCommitPartitionRequest

structure OffsetCommitRequest where
  apiVersion : Int16
  groupID : Str
  generationID : Int32
  memberID : Str
  retentionTime : Int
  topics : List OffsetCommitTopicRequest

structure OffsetCommitPartitionResponse where
  partition : Int32
  errorCode : Int16

structure OffsetCommitTopicResponse where
  topic : Str
  partitionResponses : List OffsetCommitPartitionResponse

structure OffsetCommitResponse where
  apiVersion : Int16
  throttleTime : Int
  responses : List OffsetCommitTopicResponse

structure OffsetFetchTopicRequest where
  topic : Str
  partitions : List Int32

structure OffsetFetchRequest where
  apiVersion : Int16
  groupID : Str
  topics : List OffsetFetchTopicRequest

structure OffsetFetchPartition where
  partition : Int32
  offset : Int16
  metadata : Option Str
  errorCode : Int16
  deriving DecidableEq

structure OffsetFetchTopicResponse where
  topic : Str
  partitions : List OffsetFetchPartition
  deriving DecidableEq

structure OffsetFetchResponse where
  apiVersion : Int16
  responses : List OffsetFetchTopicResponse
  deriving DecidableEq

def OffsetCommitPartitionRequest.puts (p : OffsetCommitPartitionRequest) : List Put :=
  [.int32 p.partition, .int64 p.offset, .nullableString p.metadata]

/-- The topic itself is not written. -/
def OffsetCommitTopicRequest.puts (t : OffsetCommitTopicRequest) : List Put :=
  [.arrayLength t.partitions.length] ++ t.partitions.flatMap OffsetCommitPartitionRequest.puts

/-- `OffsetCommitRequest.Encode` -/
def OffsetCommitRequest.puts (r : OffsetCommitRequest) : List Put :=
  [.string r.groupID, .arrayLength r.topics.length] ++
    r.topics.flatMap OffsetCommitTopicRequest.puts

def OffsetCommitPartitionResponse.puts (p : OffsetCommitPartitionResponse) : List Put :=
  [.int32 p.partition, .int16 p.errorCode]

def OffsetCommitTopicResponse.puts (t : OffsetCommitTopicResponse) : List Put :=
  [.string t.topic, .arrayLength t.partitionResponses.length] ++
    t.partitionResponses.flatMap OffsetCommitPartitionResponse.puts

/-- `OffsetCommitResponse.Encode` -/
def OffsetCommitResponse.puts (r : OffsetCommitResponse) : List Put :=
  (if 3 ≤ r.apiVersion then [.int32 (millis r.throttleTime)] else []) ++
    [.arrayLength r.responses.length] ++ r.responses.flatMap OffsetCommitTopicResponse.puts

def OffsetFetchTopicRequest.puts (t : OffsetFetchTopicRequest) : List Put :=
  [.string t.topic, .int32Array t.partitions]

/-- `OffsetFetchRequest.Encode` -/
def OffsetFetchRequest.puts (r : OffsetFetchRequest) : List Put :=
  [.string r.groupID, .arrayLength r.topics.length] ++ r.topics.flatMap OffsetFetchTopicRequest.puts

def OffsetFetchPartition.puts (p : OffsetFetchPartition) : List Put :=
  [.int32 p.partition, .int16 p.offset, .nullableString p.metadata, .int16 p.errorCode]

def OffsetFetchTopicResponse.puts (t : OffsetFetchTopicResponse) : List Put :=
  [.string t.topic, .arrayLength t.partitions.length] ++ t.partitions.flatMap OffsetFetchPartition.puts

/-- `OffsetFetchResponse.Encode` -/
def OffsetFetchResponse.puts (r : OffsetFetchResponse) : List Put :=
  [.arrayLength r.responses.length] ++ r.responses.flatMap OffsetFetchTopicResponse.puts

/-- `for _, t := range s` over a slice `s` that was just made: every element is read into a copy,
and the slice keeps its zero elements. -/
def lost {α β : Type} (item : Call ByteDecoder α) (zero : β) : Call ByteDecoder (List β) := do
  let n ← arrayLength
  let _ ← times item n
  return List.replicate n zero

def OffsetCommitPartitionRequest.decode (version : Int16) :
    Call ByteDecoder OffsetCommitPartitionRequest := do
  let partition ← int32
  let offset ← int64
  let timestamp ← when (1 ≤ version) int64 0
  let metadata ← nullableString
  return { partition, offset, timestamp, metadata }

def OffsetCommitTopicRequest.decode (version : Int16) :
    Call ByteDecoder OffsetCommitTopicRequest := do
  let partitions ← lost (OffsetCommitPartitionRequest.decode version) ⟨0, 0, 0, none⟩
  return { topic := [], partitions }

/-- `OffsetCommitRequest.Decode` -/
def OffsetCommitRequest.decode (version : Int16) : Call ByteDecoder OffsetCommitRequest := do
  let groupID ← string
  let generationID ← when (1 ≤ version) int32 0
  let memberID ← when (1 ≤ version) string []
  let retentionTime ← when (2 ≤ version) int64 0
  let topics ← lost (OffsetCommitTopicRequest.decode version) ⟨[], []⟩
  return { apiVersion := version, groupID, generationID, memberID, retentionTime, topics }

def OffsetCommitPartitionResponse.decode : Call ByteDecoder OffsetCommitPartitionResponse := do
  let partition ← int32
  let errorCode ← int16
  return { partition, errorCode }

def OffsetCommitTopicResponse.decode : Call ByteDecoder OffsetCommitTopicResponse := do
  let topic ← string
  let partitionResponses ← lost OffsetCommitPartitionResponse.decode ⟨0, 0⟩
  return { topic, partitionResponses }

/-- `OffsetCommitResponse.Decode` -/
def OffsetCommitResponse.decode (version : Int16) : Call ByteDecoder OffsetCommitResponse := do
  let throttleTime ← when (3 ≤ version) (do return ofMillis (← int32)) 0
  let responses ← lost OffsetCommitTopicResponse.decode ⟨[], []⟩
  return { apiVersion := version, throttleTime, responses }

def OffsetFetchTopicRequest.decode : Call ByteDecoder OffsetFetchTopicRequest := do
  let topic ← string
  let partitions ← int32Array
  return { topic, partitions }

/-- `OffsetFetchRequest.Decode` -/
def OffsetFetchRequest.decode (version : Int16) : Call ByteDecoder OffsetFetchRequest := do
  let groupID ← string
  let topics ← array OffsetFetchTopicRequest.decode
  return { apiVersion := version, groupID, topics }

def OffsetFetchPartition.decode : Call ByteDecoder OffsetFetchPartition := do
  let partition ← int32
  let offset ← int16
  let metadata ← nullableString
  let errorCode ← int16
  return { partition, offset, metadata, errorCode }

def OffsetFetchTopicResponse.decode : Call ByteDecoder OffsetFetchTopicResponse := do
  let topic ← string
  let partitions ← lost OffsetFetchPartition.decode ⟨0, 0, none, 0⟩
  return { topic, partitions }

/-- `OffsetFetchResponse.Decode` -/
def OffsetFetchResponse.decode (version : Int16) : Call ByteDecoder OffsetFetchResponse := do
  let responses ← lost OffsetFetchTopicResponse.decode ⟨[], []⟩
  return { apiVersion := version, responses }

section Lost

variable {α β : Type} {item : Call ByteDecoder α} {zero : β}
variable {d d' : ByteDecoder}

theorem length_times {n : Nat} {xs : List α}
    (ran : (times item n).run d = .ok xs d') : xs.length = n := by
  induction n generalizing d d' xs with
  | zero =>
    cases ran
    rfl
  | succ n ih =>
    obtain ⟨x, d₁, -, rest⟩ := bind_eq_ok ran
    obtain ⟨xs, d₂, ran₂, done⟩ := bind_eq_ok rest
    cases done
    rw [length_cons, ih ran₂]

theorem lost_eq_ok {xs : List β} (ran : (lost item zero).run d = .ok xs d') :
    ∃ n d₁, arrayLength.run d = .ok n d₁ ∧ xs = List.replicate n zero ∧
      ∃ ys, (times item n).run d₁ = .ok ys d' := by
  obtain ⟨n, d₁, number, rest⟩ := bind_eq_ok ran
  obtain ⟨ys, d₂, read, done⟩ := bind_eq_ok rest
  cases done
  exact ⟨n, d₁, number, rfl, ys, read⟩

theorem lost_zero {xs : List β} (inside : d.off ≤ d.b.length)
    (ran : (lost item zero).run d = .ok xs d') :
    xs.length ≤ maxArrayLength ∧ ∀ x ∈ xs, x = zero := by
  obtain ⟨n, d₁, number, rfl, -⟩ := lost_eq_ok ran
  obtain ⟨few, -⟩ := Uses.arrayLength _ _ _ inside number
  rw [length_replicate]
  exact ⟨few, fun x member => eq_of_mem_replicate member⟩

theorem lost_reads {raw : α → Bytes} {ys : List α} (few : ys.length ≤ maxArrayLength)
    (pos : ∀ y ∈ ys, 0 < (raw y).length) (one : ∀ y ∈ ys, Reads item (raw y) y) (zero : β) :
    Reads (lost item zero) ((Put.arrayLength ys.length).raw ++ ys.flatMap raw)
      (List.replicate ys.length zero) := by
  intro d rest here
  have read := Reads.array few pos one d rest here
  obtain ⟨n, d₁, number, items⟩ := bind_eq_ok read
  have length := length_times items
  subst length
  unfold lost
  rw [bind_ok number, bind_ok items]
  rfl

theorem lost_reads_nil (item : Call ByteDecoder α) (zero : β) :
    Reads (lost item zero) (Put.arrayLength 0).raw [] := by
  have none (P : α → Prop) : ∀ y ∈ ([] : List α), P y := fun _ inside =>
    (not_mem_nil inside).elim
  have read : Reads (lost item zero) ((Put.arrayLength 0).raw ++
      ([] : List α).flatMap fun _ => []) [] := lost_reads (Nat.zero_le _) (none _) (none _) zero
  simpa using read

section Surviving

theorem OffsetCommitTopicRequest.reads_zero (version : Int16) :
    Reads (decode version) (rawOf (puts ⟨[], []⟩)) ⟨[], []⟩ := by
  have read := (lost_reads_nil (OffsetCommitPartitionRequest.decode version)
    (⟨0, 0, 0, none⟩ : OffsetCommitPartitionRequest)).map fun ps => OffsetCommitTopicRequest.mk [] ps
  simpa [decode, puts] using read

theorem OffsetCommitTopicResponse.reads_zero : Reads decode (rawOf (puts ⟨[], []⟩)) ⟨[], []⟩ := by
  have partitions := (lost_reads_nil OffsetCommitPartitionResponse.decode
    (⟨0, 0⟩ : OffsetCommitPartitionResponse)).map fun ps => OffsetCommitTopicResponse.mk [] ps
  have read : Reads decode (Put.rawString [] ++ (Put.arrayLength 0).raw) ⟨[], []⟩ :=
    (Reads.string (Nat.zero_le _)).bind partitions
  simpa [puts, Put.raw] using read

theorem OffsetFetchTopicResponse.reads_zero : Reads decode (rawOf (puts ⟨[], []⟩)) ⟨[], []⟩ := by
  have partitions := (lost_reads_nil OffsetFetchPartition.decode
    (⟨0, 0, none, 0⟩ : OffsetFetchPartition)).map fun ps => OffsetFetchTopicResponse.mk [] ps
  have read : Reads decode (Put.rawString [] ++ (Put.arrayLength 0).raw) ⟨[], []⟩ :=
    (Reads.string (Nat.zero_le _)).bind partitions
  simpa [puts, Put.raw] using read

/-- Zero elements are the only ones that a loop over copies gives back. -/
theorem reads_zeros {item : Call ByteDecoder α} {puts : α → List Put} {zero : α}
    (one : Reads item (rawOf (puts zero)) zero) (pos : 0 < sizeOf (puts zero)) {xs : List α}
    (few : xs.length ≤ maxArrayLength) (zeros : ∀ x ∈ xs, x = zero) :
    Reads (lost item zero) (rawOf (.arrayLength xs.length :: xs.flatMap puts)) xs := by
  have same : xs = replicate xs.length zero := eq_replicate_of_mem zeros
  have read : Reads (lost item zero) ((Put.arrayLength xs.length).raw ++
      xs.flatMap fun x => rawOf (puts x)) (replicate xs.length zero) :=
    lost_reads few (fun x inside => by rw [zeros x inside]; exact pos)
      (fun x inside => by rw [zeros x inside]; exact one) zero
  rw [← same] at read
  rwa [rawOf_cons, rawOf_flatMap]

/-- A message whose last field is filled by a loop over copies survives if the rest of it does and
the elements of the field are zero. -/
theorem lost_survives_iff {γ : Type} (c : Codec β) (mk : β → List α → γ) {item : Call ByteDecoder α}
    {puts : α → List Put} {zero : α} (one : Reads item (rawOf (puts zero)) zero)
    (pos : 0 < sizeOf (puts zero)) (plain : ∀ x, ∀ op ∈ puts x, op.Plain)
    (fits : ∀ op ∈ puts zero, op.Fits)
    (injective : ∀ {x x' xs xs'}, mk x xs = mk x' xs' → x = x' ∧ xs = xs') (x : β) (xs : List α) :
    RoundTrips (c.lay x ++ .arrayLength xs.length :: xs.flatMap puts)
        (do let x ← c.dec; let xs ← lost item zero; return mk x xs) (mk x xs) ↔
      c.Fit x ∧ xs.length ≤ maxArrayLength ∧ ∀ y ∈ xs, y = zero := by
  have allPlain : ∀ op ∈ c.lay x ++ .arrayLength xs.length :: xs.flatMap puts, op.Plain := by
    simp only [forall_mem_append, forall_mem_cons, forall_mem_flatMap]
    exact ⟨c.plain x, trivial, fun y _ => plain y⟩
  constructor
  · rintro ⟨b, encoded, decoded⟩
    have allFit := fits_of_encode encoded
    obtain ⟨x', d₁, ran₁, rest⟩ := bind_eq_ok decoded
    obtain ⟨xs', d₂, ran₂, done⟩ := bind_eq_ok rest
    obtain ⟨value, -⟩ := Result.ok.inj done
    obtain ⟨rfl, rfl⟩ := injective value
    obtain ⟨ok, rfl, within⟩ := c.uses _ _ _ (Nat.zero_le _) ran₁
    obtain ⟨few, zeros⟩ := lost_zero within ran₂
    exact ⟨⟨fun op inside => allFit op (mem_append_left _ inside), ok⟩, few, zeros⟩
  · rintro ⟨⟨fit, ok⟩, few, zeros⟩
    have allFit : ∀ op ∈ c.lay x ++ .arrayLength xs.length :: xs.flatMap puts, op.Fits := by
      simp only [forall_mem_append, forall_mem_cons, forall_mem_flatMap]
      refine ⟨fit, ?_, fun y inside => ?_⟩
      · change (xs.length : Int) ≤ maxInt32
        have limit : maxArrayLength ≤ maxInt32 := by decide
        omega
      · rw [zeros y inside]
        exact fits
    have read : Reads (do let x ← c.dec; let xs ← lost item zero; return mk x xs)
        (rawOf (c.lay x) ++ rawOf (.arrayLength xs.length :: xs.flatMap puts)) (mk x xs) :=
      (c.reads x ok).bind ((reads_zeros one pos few zeros).map (mk x))
    rw [← rawOf_append] at read
    exact ⟨_, encode_plain allPlain allFit, read.whole⟩

theorem OffsetCommitTopicRequest.puts_plain (t : OffsetCommitTopicRequest) :
    ∀ op ∈ t.puts, op.Plain := by
  simp only [puts, forall_mem_append, forall_mem_flatMap]
  exact ⟨by simp [Put.Plain], fun p _ => by simp [OffsetCommitPartitionRequest.puts, Put.Plain]⟩

theorem OffsetCommitTopicResponse.puts_plain (t : OffsetCommitTopicResponse) :
    ∀ op ∈ t.puts, op.Plain := by
  simp only [puts, forall_mem_append, forall_mem_flatMap]
  exact ⟨by simp [Put.Plain], fun p _ => by simp [OffsetCommitPartitionResponse.puts, Put.Plain]⟩

theorem OffsetFetchTopicResponse.puts_plain (t : OffsetFetchTopicResponse) :
    ∀ op ∈ t.puts, op.Plain := by
  simp only [puts, forall_mem_append, forall_mem_flatMap]
  exact ⟨by simp [Put.Plain], fun p _ => by simp [OffsetFetchPartition.puts, Put.Plain]⟩

theorem OffsetCommitResponse.survives_iff (r : OffsetCommitResponse) :
    RoundTrips r.puts (decode r.apiVersion) r ↔
      (if 3 ≤ r.apiVersion then WholeMillis r.throttleTime else r.throttleTime = 0) ∧
      r.responses.length ≤ maxArrayLength ∧ ∀ t ∈ r.responses, t = ⟨[], []⟩ := by
  have survive := lost_survives_iff (Codec.when (3 ≤ r.apiVersion) .millis 0)
    (OffsetCommitResponse.mk r.apiVersion)
    OffsetCommitTopicResponse.reads_zero (by decide) OffsetCommitTopicResponse.puts_plain
    (by simp [OffsetCommitTopicResponse.puts, Put.Fits])
    (fun same => (OffsetCommitResponse.mk.inj same).2) r.throttleTime r.responses
  simpa [puts, decode] using survive

theorem OffsetFetchResponse.survives_iff (r : OffsetFetchResponse) :
    RoundTrips r.puts (decode r.apiVersion) r ↔
      r.responses.length ≤ maxArrayLength ∧ ∀ t ∈ r.responses, t = ⟨[], []⟩ := by
  have survive := lost_survives_iff (Codec.absent ()) (fun _ => OffsetFetchResponse.mk r.apiVersion)
    OffsetFetchTopicResponse.reads_zero (by decide) OffsetFetchTopicResponse.puts_plain
    (by simp [OffsetFetchTopicResponse.puts, Put.Fits])
    (fun same => ⟨rfl, (OffsetFetchResponse.mk.inj same).2⟩) () r.responses
  simpa [puts, decode] using survive

theorem OffsetCommitRequest.survives_old_iff {r : OffsetCommitRequest} (old : ¬ 1 ≤ r.apiVersion) :
    RoundTrips r.puts (decode r.apiVersion) r ↔
      r.groupID.length ≤ maxInt16 ∧ r.generationID = 0 ∧ r.memberID = [] ∧ r.retentionTime = 0 ∧
      r.topics.length ≤ maxArrayLength ∧ ∀ t ∈ r.topics, t = ⟨[], []⟩ := by
  have older : ¬ 2 ≤ r.apiVersion := fun recent => old (Int16.le_trans (by decide) recent)
  have same : decode r.apiVersion = (do
      let groupID ← Codec.string.dec
      let topics ← lost (OffsetCommitTopicRequest.decode r.apiVersion) ⟨[], []⟩
      return ⟨r.apiVersion, groupID, 0, [], 0, topics⟩) := by
    simp [decode, when, old, older]
  have survive := lost_survives_iff Codec.string
    (fun groupID topics => OffsetCommitRequest.mk r.apiVersion groupID 0 [] 0 topics)
    (OffsetCommitTopicRequest.reads_zero r.apiVersion) (by decide)
    OffsetCommitTopicRequest.puts_plain (by simp [OffsetCommitTopicRequest.puts, Put.Fits])
    (fun same => by simpa using same) r.groupID r.topics
  rw [same]
  by_cases zero : r.generationID = 0 ∧ r.memberID = [] ∧ r.retentionTime = 0
  · obtain ⟨generation, member, retention⟩ := zero
    have shape : OffsetCommitRequest.mk r.apiVersion r.groupID 0 [] 0 r.topics = r := by
      rw [← generation, ← member, ← retention]
    rw [shape] at survive
    simpa [puts, generation, member, retention] using survive
  · have lost : ¬ RoundTrips r.puts (do
        let groupID ← Codec.string.dec
        let topics ← lost (OffsetCommitTopicRequest.decode r.apiVersion) ⟨[], []⟩
        return ⟨r.apiVersion, groupID, 0, [], 0, topics⟩) r := by
      rintro ⟨b, -, decoded⟩
      obtain ⟨groupID, d₁, -, rest⟩ := bind_eq_ok decoded
      obtain ⟨topics, d₂, -, done⟩ := bind_eq_ok rest
      obtain ⟨value, -⟩ := Result.ok.inj done
      apply zero
      rw [← value]
      exact ⟨rfl, rfl, rfl⟩
    constructor
    · intro survives
      exact (lost survives).elim
    · rintro ⟨-, generation, member, retention, -⟩
      exact (zero ⟨generation, member, retention⟩).elim

/-- A returning decoder moved by `low` bytes at least. -/
def Passes (dec : Call ByteDecoder α) (low : Nat) : Prop :=
  ∀ (d d' : ByteDecoder) (value : α), d.off ≤ d.b.length → dec.run d = .ok value d' →
    d.off + low ≤ d'.off ∧ d'.off ≤ d'.b.length

theorem Passes.of_uses {dec : Call ByteDecoder α} {size : α → Nat} {Ok : α → Prop}
    (uses : Uses dec size Ok) {low : Nat} (least : ∀ x, low ≤ size x) : Passes dec low := by
  intro d d' value inside ran
  obtain ⟨-, rfl, within⟩ := uses d d' value inside ran
  have few := least value
  rw [skip_off, skip_b]
  omega

theorem Passes.bind {dec : Call ByteDecoder α} {next : α → Call ByteDecoder β} {i j : Nat}
    (first : Passes dec i) (second : ∀ x, Passes (next x) j) : Passes (dec >>= next) (i + j) := by
  intro d d' value inside ran
  obtain ⟨x, d₁, ran₁, ran₂⟩ := bind_eq_ok ran
  obtain ⟨moved₁, within₁⟩ := first d d₁ x inside ran₁
  obtain ⟨moved₂, within₂⟩ := second x d₁ d' value within₁ ran₂
  omega

theorem Passes.pure (value : α) : Passes (Pure.pure value) 0 := by
  rintro d d' _ inside ⟨⟩
  exact ⟨Nat.le_refl _, inside⟩

theorem Passes.times {low : Nat} (one : Passes item low) (n : Nat) :
    Passes (ByteDecoder.times item n) (low * n) := by
  induction n with
  | zero => exact Passes.pure []
  | succ n ih =>
    have both : Passes (ByteDecoder.times item (n + 1)) (low + (low * n + 0)) :=
      one.bind fun x => ih.bind fun xs => Passes.pure (x :: xs)
    rwa [show low + (low * n + 0) = low * (n + 1) by rw [Nat.mul_succ]; omega] at both

theorem OffsetCommitTopicRequest.passes (version : Int16) : Passes (decode version) 4 := by
  have timestamp : Passes (when (1 ≤ version) int64 0) 0 := by
    unfold when
    split
    · exact .of_uses Uses.int64 fun _ => Nat.zero_le _
    · exact Passes.pure 0
  have partition : Passes (OffsetCommitPartitionRequest.decode version) (0 + (0 + (0 + (0 + 0)))) :=
    (Passes.of_uses Uses.int32 fun _ => Nat.zero_le _).bind fun _ =>
    (Passes.of_uses Uses.int64 fun _ => Nat.zero_le _).bind fun _ => timestamp.bind fun _ =>
    (Passes.of_uses Uses.nullableString fun _ => Nat.zero_le _).bind fun _ => Passes.pure _
  intro d d' value inside ran
  obtain ⟨ps, d₁, ran₁, done⟩ := bind_eq_ok ran
  obtain ⟨-, rfl⟩ := Result.ok.inj done
  obtain ⟨n, d₂, number, -, ys, items⟩ := lost_eq_ok ran₁
  obtain ⟨-, rfl, within⟩ := Uses.arrayLength _ _ _ inside number
  obtain ⟨moved, within'⟩ := partition.times n _ _ _ within items
  simp only [skip_off] at moved
  omega

/-- From version 1 on the reader takes fields in front of the topics that were not written. -/
theorem OffsetCommitRequest.not_survives {r : OffsetCommitRequest} (recent : 1 ≤ r.apiVersion) :
    ¬ RoundTrips r.puts (decode r.apiVersion) r := by
  rintro ⟨b, encoded, decoded⟩
  have plain : ∀ op ∈ r.puts, op.Plain := by
    simp only [puts, forall_mem_append, forall_mem_flatMap]
    exact ⟨by simp [Put.Plain], fun t _ => t.puts_plain⟩
  have retention : Passes (when (2 ≤ r.apiVersion) int64 0) 0 := by
    unfold when
    split
    · exact .of_uses Uses.int64 fun _ => Nat.zero_le _
    · exact Passes.pure 0
  obtain ⟨groupID, d₁, ran₁, rest⟩ := bind_eq_ok decoded
  obtain ⟨-, rfl, within₁⟩ := Uses.string _ _ _ (Nat.zero_le _) ran₁
  obtain ⟨generationID, d₂, ran₂, rest⟩ := bind_eq_ok rest
  rw [when, if_pos recent] at ran₂
  obtain ⟨-, rfl, within₂⟩ := Uses.int32 _ _ _ within₁ ran₂
  obtain ⟨memberID, d₃, ran₃, rest⟩ := bind_eq_ok rest
  rw [when, if_pos recent] at ran₃
  obtain ⟨-, rfl, within₃⟩ := Uses.string _ _ _ within₂ ran₃
  obtain ⟨retentionTime, d₄, ran₄, rest⟩ := bind_eq_ok rest
  obtain ⟨moved₄, within₄⟩ := retention _ _ _ within₃ ran₄
  obtain ⟨topics, d₅, ran₅, done⟩ := bind_eq_ok rest
  obtain ⟨value, final⟩ := Result.ok.inj done
  obtain ⟨n, d₆, number, zeros, ys, items⟩ := lost_eq_ok ran₅
  obtain ⟨-, rfl, within₆⟩ := Uses.arrayLength _ _ _ within₄ number
  obtain ⟨moved, -⟩ := (OffsetCommitTopicRequest.passes r.apiVersion).times n _ _ _ within₆ items
  have length : b.length = sizeOf r.puts := by
    rw [encode_plain plain (fits_of_encode encoded)] at encoded
    cases encoded
    rfl
  have group : groupID = r.groupID := congrArg OffsetCommitRequest.groupID value
  have all : replicate n ⟨[], []⟩ = r.topics :=
    zeros.symm.trans (congrArg OffsetCommitRequest.topics value)
  have total : sizeOf r.puts = 2 + groupID.length + 4 + 4 * n := by
    have items : sizeOf ((replicate n ⟨[], []⟩).flatMap OffsetCommitTopicRequest.puts) =
        4 * n := by
      rw [sizeOf_flatMap, map_replicate, sum_replicate]
      exact Nat.mul_comm n 4
    rw [puts, ← all, ← group, sizeOf_append, items]
    simp [Put.raw]
  have place : d₅.off = b.length := by rw [final]
  simp only [skip_off, newDecoder] at moved moved₄
  omega

end Surviving

end Lost

theorem OffsetCommitRequest.survives_iff (r : OffsetCommitRequest) :
    RoundTrips r.puts (decode r.apiVersion) r ↔ ¬ 1 ≤ r.apiVersion ∧
      r.groupID.length ≤ maxInt16 ∧ r.generationID = 0 ∧ r.memberID = [] ∧ r.retentionTime = 0 ∧
      r.topics.length ≤ maxArrayLength ∧ ∀ t ∈ r.topics, t = ⟨[], []⟩ := by
  by_cases recent : 1 ≤ r.apiVersion
  · simp [recent, not_survives recent]
  · rw [survives_old_iff recent]
    exact (and_iff_right recent).symm

def OffsetFetchTopicRequest.codec : Codec OffsetFetchTopicRequest :=
  (Codec.string.pair .int32Array).iso (fun p => ⟨p.1, p.2⟩)
    (fun t => (t.topic, t.partitions))

def OffsetFetchRequest.codec (version : Int16) : Codec OffsetFetchRequest :=
  (Codec.string.pair OffsetFetchTopicRequest.codec.array).iso
    (fun p => ⟨version, p.1, p.2⟩) (fun r => (r.groupID, r.topics))

theorem OffsetFetchTopicRequest.coded : puts = codec.lay ∧ decode = codec.dec := by
  simp [funext_iff, puts, decode, codec]

theorem OffsetFetchRequest.survives_iff (r : OffsetFetchRequest) :
    RoundTrips r.puts (decode r.apiVersion) r ↔
      r.groupID.length ≤ maxInt16 ∧ r.topics.length ≤ maxArrayLength ∧
      ∀ t ∈ r.topics, t.topic.length ≤ maxInt16 ∧ t.partitions.length ≤ maxInt32 := by
  refine (codec r.apiVersion).carries
    (by simp [puts, decode, codec, OffsetFetchTopicRequest.coded]) ?_
  simp [codec, OffsetFetchTopicRequest.codec]

end Offsets

/-- Which messages about consumer offsets survive. Three of the four keep no topic. -/
theorem offset_messages_survive_iff (commit : OffsetCommitRequest)
    (committed : OffsetCommitResponse) (fetch : OffsetFetchRequest)
    (fetched : OffsetFetchResponse) :
    (RoundTrips commit.puts (OffsetCommitRequest.decode commit.apiVersion) commit ↔
      ¬ 1 ≤ commit.apiVersion ∧ commit.groupID.length ≤ maxInt16 ∧ commit.generationID = 0 ∧
      commit.memberID = [] ∧ commit.retentionTime = 0 ∧
      commit.topics.length ≤ maxArrayLength ∧ ∀ t ∈ commit.topics, t = ⟨[], []⟩) ∧
    (RoundTrips committed.puts (OffsetCommitResponse.decode committed.apiVersion) committed ↔
      (if 3 ≤ committed.apiVersion then WholeMillis committed.throttleTime
        else committed.throttleTime = 0) ∧
      committed.responses.length ≤ maxArrayLength ∧ ∀ t ∈ committed.responses, t = ⟨[], []⟩) ∧
    (RoundTrips fetch.puts (OffsetFetchRequest.decode fetch.apiVersion) fetch ↔
      fetch.groupID.length ≤ maxInt16 ∧ fetch.topics.length ≤ maxArrayLength ∧
      ∀ t ∈ fetch.topics, t.topic.length ≤ maxInt16 ∧ t.partitions.length ≤ maxInt32) ∧
    (RoundTrips fetched.puts (OffsetFetchResponse.decode fetched.apiVersion) fetched ↔
      fetched.responses.length ≤ maxArrayLength ∧ ∀ t ∈ fetched.responses, t = ⟨[], []⟩) :=
  ⟨commit.survives_iff, OffsetCommitResponse.survives_iff committed, fetch.survives_iff,
    OffsetFetchResponse.survives_iff fetched⟩

/-- The offsets that a consumer committed come back as no topic at all. -/
theorem offset_fetch_response_lost :
    let r : OffsetFetchResponse := ⟨1, [⟨[116], [⟨0, 7, some [109], 0⟩]⟩]⟩
    ((encode r.puts).toOption.map fun b =>
      ((OffsetFetchResponse.decode 1).run (newDecoder b)).returned) =
      some (some ⟨1, [⟨[], []⟩]⟩) := by
  decide +kernel

end Jocko.Protocol
