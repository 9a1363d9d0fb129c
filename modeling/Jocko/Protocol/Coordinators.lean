import Jocko.Protocol.Configs

namespace Jocko.Protocol

open Go ByteDecoder List

section Topics

def TopicErrorCode.createdCodec (version : Int16) : Codec TopicErrorCode :=
  (Codec.string.pair (Codec.int16.pair
    (Codec.when (1 ≤ version) .nullableString none))).iso
    (fun p => ⟨p.1, p.2.1, p.2.2⟩) (fun t => (t.topic, t.errorCode, t.errorMessage))

def CreateTopicsResponse.codec (version : Int16) : Codec CreateTopicsResponse :=
  ((Codec.when (2 ≤ version) .millis 0).pair (TopicErrorCode.createdCodec version).array).iso
    (fun p => ⟨version, p.1, p.2⟩) (fun c => (c.throttleTime, c.topicErrorCodes))

def TopicErrorCode.deletedCodec : Codec TopicErrorCode :=
  (Codec.string.pair .int16).iso (fun p => ⟨p.1, p.2, none⟩)
    (fun t => (t.topic, t.errorCode))

def DeleteTopicsResponse.codec (version : Int16) : Codec DeleteTopicsResponse :=
  ((Codec.when (1 ≤ version) .millis 0).pair TopicErrorCode.deletedCodec.array).iso
    (fun p => ⟨version, p.1, p.2⟩) (fun c => (c.throttleTime, c.topicErrorCodes))

def DeleteTopicsRequest.codec (version : Int16) : Codec DeleteTopicsRequest :=
  (Codec.stringArray.pair .millis).iso (fun p => ⟨version, p.1, p.2⟩)
    (fun r => (r.topics, r.timeout))

theorem TopicErrorCode.created_coded (version : Int16) :
    created version = (createdCodec version).lay ∧
      decodeCreated version = (createdCodec version).dec := by
  simp [funext_iff, created, decodeCreated, createdCodec]

theorem TopicErrorCode.deleted_coded :
    deleted = deletedCodec.lay ∧ decodeDeleted = deletedCodec.dec := by
  simp [funext_iff, deleted, decodeDeleted, deletedCodec]

def CreateTopicsResponse.Limits (c : CreateTopicsResponse) : Prop :=
  (if 2 ≤ c.apiVersion then WholeMillis c.throttleTime else c.throttleTime = 0) ∧
    c.topicErrorCodes.length ≤ maxArrayLength ∧ ∀ t ∈ c.topicErrorCodes,
      t.topic.length ≤ maxInt16 ∧ if 1 ≤ c.apiVersion then
        (t.errorMessage.getD []).length ≤ maxInt16 else t.errorMessage = none

theorem CreateTopicsResponse.survives_iff (c : CreateTopicsResponse) :
    RoundTrips c.puts (decode c.apiVersion) c ↔ c.Limits := by
  refine (codec c.apiVersion).carries
    (by simp [puts, decode, codec, TopicErrorCode.created_coded]) ?_
  simp [codec, TopicErrorCode.createdCodec, Limits]

def DeleteTopicsResponse.Limits (c : DeleteTopicsResponse) : Prop :=
  (if 1 ≤ c.apiVersion then WholeMillis c.throttleTime else c.throttleTime = 0) ∧
    c.topicErrorCodes.length ≤ maxArrayLength ∧ ∀ t ∈ c.topicErrorCodes,
      t.topic.length ≤ maxInt16 ∧ t.errorMessage = none

theorem DeleteTopicsResponse.survives_iff (c : DeleteTopicsResponse) :
    RoundTrips c.puts (decode c.apiVersion) c ↔ c.Limits := by
  have unsaid (t : TopicErrorCode) : TopicErrorCode.mk t.topic t.errorCode none = t ↔
      t.errorMessage = none := by
    cases t
    simp [eq_comm]
  refine (codec c.apiVersion).carries
    (by simp [puts, decode, codec, TopicErrorCode.deleted_coded]) ?_
  simp [codec, TopicErrorCode.deletedCodec, Limits, unsaid]

def DeleteTopicsRequest.Limits (r : DeleteTopicsRequest) : Prop :=
  r.topics.length ≤ maxInt32 ∧ (∀ topic ∈ r.topics, topic.length ≤ maxInt16) ∧
    WholeMillis r.timeout

theorem DeleteTopicsRequest.survives_iff (r : DeleteTopicsRequest) :
    RoundTrips r.puts (decode r.apiVersion) r ↔ r.Limits := by
  refine (codec r.apiVersion).carries (by simp [puts, decode, codec]) ?_
  simp [codec, Limits, and_assoc]

end Topics

section FindCoordinator

def FindCoordinatorRequest.codec (version : Int16) : Codec FindCoordinatorRequest :=
  (Codec.string.pair (Codec.when (1 ≤ version) .int8 0)).iso (fun p => ⟨version, p.1, p.2⟩)
    (fun r => (r.coordinatorKey, r.coordinatorType))

def FindCoordinatorResponse.codec (version : Int16) : Codec FindCoordinatorResponse :=
  ((Codec.when (1 ≤ version) .millis 0).pair (Codec.int16.pair
    ((Codec.when (1 ≤ version) .nullableString none).pair
      (Codec.int32.pair (Codec.string.pair .int32))))).iso
    (fun p => ⟨version, p.1, p.2.1, p.2.2.1, ⟨p.2.2.2.1, p.2.2.2.2.1, p.2.2.2.2.2⟩⟩)
    (fun r => (r.throttleTime, r.errorCode, r.errorMessage, r.coordinator.nodeID,
      r.coordinator.host, r.coordinator.port))

def FindCoordinatorRequest.Limits (r : FindCoordinatorRequest) : Prop :=
  r.coordinatorKey.length ≤ maxInt16 ∧ (¬ 1 ≤ r.apiVersion → r.coordinatorType = 0)

theorem FindCoordinatorRequest.survives_iff (r : FindCoordinatorRequest) :
    RoundTrips r.puts (decode r.apiVersion) r ↔ r.Limits := by
  refine (codec r.apiVersion).carries (by simp [puts, decode, codec]) ?_
  simp [codec, Limits]

def FindCoordinatorResponse.Limits (r : FindCoordinatorResponse) : Prop :=
  (if 1 ≤ r.apiVersion then WholeMillis r.throttleTime else r.throttleTime = 0) ∧
    (if 1 ≤ r.apiVersion then (r.errorMessage.getD []).length ≤ maxInt16
      else r.errorMessage = none) ∧
    r.coordinator.host.length ≤ maxInt16

theorem FindCoordinatorResponse.survives_iff (r : FindCoordinatorResponse) :
    RoundTrips r.puts (decode r.apiVersion) r ↔ r.Limits := by
  refine (codec r.apiVersion).carries (by simp [puts, decode, codec]) ?_
  simp [codec, Limits]

end FindCoordinator

section Groups

def GroupAssignment.codec : Codec GroupAssignment :=
  (Codec.string.pair .bytes).iso (fun p => ⟨p.1, p.2⟩)
    (fun a => (a.memberID, a.memberAssignment))

def SyncGroupRequest.codec (version : Int16) : Codec SyncGroupRequest :=
  (Codec.string.pair (Codec.int32.pair (Codec.string.pair
    GroupAssignment.codec.array))).iso
    (fun p => ⟨version, p.1, p.2.1, p.2.2.1, p.2.2.2⟩)
    (fun r => (r.groupID, r.generationID, r.memberID, r.groupAssignments))

def SyncGroupResponse.codec (version : Int16) : Codec SyncGroupResponse :=
  ((Codec.when (1 ≤ version) .millis 0).pair (Codec.int16.pair .bytes)).iso
    (fun p => ⟨version, p.1, p.2.1, p.2.2⟩)
    (fun r => (r.throttleTime, r.errorCode, r.memberAssignment))

def LeaveGroupResponse.codec (version : Int16) : Codec LeaveGroupResponse :=
  ((Codec.when (1 ≤ version) .millis 0).pair .int16).iso (fun p => ⟨version, p.1, p.2⟩)
    (fun r => (r.throttleTime, r.errorCode))

def ListGroup.codec : Codec ListGroup :=
  (Codec.string.pair .string).iso (fun p => ⟨p.1, p.2⟩)
    (fun g => (g.groupID, g.protocolType))

def ListGroupsResponse.codec (version : Int16) : Codec ListGroupsResponse :=
  ((Codec.when (1 ≤ version) .millis 0).pair (Codec.int16.pair
    ListGroup.codec.array)).iso (fun p => ⟨version, p.1, p.2.1, p.2.2⟩)
    (fun r => (r.throttleTime, r.errorCode, r.groups))

theorem GroupAssignment.coded : puts = codec.lay ∧ decode = codec.dec := by
  simp [funext_iff, puts, decode, codec]

theorem ListGroup.coded : puts = codec.lay ∧ decode = codec.dec := by
  simp [funext_iff, puts, decode, codec]

def SyncGroupRequest.Limits (r : SyncGroupRequest) : Prop :=
  r.groupID.length ≤ maxInt16 ∧ r.memberID.length ≤ maxInt16 ∧
    r.groupAssignments.length ≤ maxArrayLength ∧ ∀ a ∈ r.groupAssignments,
      a.memberID.length ≤ maxInt16 ∧ (a.memberAssignment.getD []).length ≤ maxInt32

theorem SyncGroupRequest.survives_iff (r : SyncGroupRequest) :
    RoundTrips r.puts (decode r.apiVersion) r ↔ r.Limits := by
  refine (codec r.apiVersion).carries (by simp [puts, decode, codec, GroupAssignment.coded]) ?_
  simp [codec, GroupAssignment.codec, Limits]

def SyncGroupResponse.Limits (r : SyncGroupResponse) : Prop :=
  (if 1 ≤ r.apiVersion then WholeMillis r.throttleTime else r.throttleTime = 0) ∧
    (r.memberAssignment.getD []).length ≤ maxInt32

theorem SyncGroupResponse.survives_iff (r : SyncGroupResponse) :
    RoundTrips r.puts (decode r.apiVersion) r ↔ r.Limits := by
  refine (codec r.apiVersion).carries (by simp [puts, decode, codec]) ?_
  simp [codec, Limits]

def LeaveGroupResponse.Limits (r : LeaveGroupResponse) : Prop :=
  if 1 ≤ r.apiVersion then WholeMillis r.throttleTime else r.throttleTime = 0

theorem LeaveGroupResponse.survives_iff (r : LeaveGroupResponse) :
    RoundTrips r.puts (decode r.apiVersion) r ↔ r.Limits := by
  refine (codec r.apiVersion).carries (by simp [puts, decode, codec]) ?_
  simp [codec, Limits]

def ListGroupsResponse.Limits (r : ListGroupsResponse) : Prop :=
  (if 1 ≤ r.apiVersion then WholeMillis r.throttleTime else r.throttleTime = 0) ∧
    r.groups.length ≤ maxArrayLength ∧
    ∀ g ∈ r.groups, g.groupID.length ≤ maxInt16 ∧ g.protocolType.length ≤ maxInt16

theorem ListGroupsResponse.survives_iff (r : ListGroupsResponse) :
    RoundTrips r.puts (decode r.apiVersion) r ↔ r.Limits := by
  refine (codec r.apiVersion).carries (by simp [puts, decode, codec, ListGroup.coded]) ?_
  simp [codec, ListGroup.codec, Limits]

end Groups

section DescribeGroups

namespace Group

def memberCodec : Codec GroupMember :=
  (Codec.string.pair (Codec.string.pair (Codec.bytes.pair .bytes))).iso
    (fun p => ⟨p.1, p.2.1, p.2.2.1, p.2.2.2⟩)
    (fun m => (m.clientID, m.clientHost, m.groupMemberMetadata, m.groupMemberAssignment))

def members : Codec (GoMap Str GroupMember) :=
  (Codec.string.pair memberCodec).entries

/-- A group as it is on the wire, before the entries of its map are assigned. -/
def codec : Codec Group :=
  (Codec.int16.pair (Codec.string.pair (Codec.string.pair (Codec.string.pair
    (Codec.string.pair members))))).iso
    (fun p => ⟨p.1, p.2.1, p.2.2.1, p.2.2.2.1, p.2.2.2.2.1, p.2.2.2.2.2⟩)
    (fun g => (g.errorCode, g.groupID, g.state, g.protocolType, g.protocol, g.groupMembers))

/-- The map that is made from the entries, nil if there are none. -/
def assignedMembers (es : List (Str × GroupMember)) : GoMap Str GroupMember :=
  if es = [] then none else GoMap.assigned es

def assigned (g : Group) : Group :=
  { g with groupMembers := assignedMembers g.groupMembers.entries }

theorem puts_eq : puts = codec.lay := by
  funext g
  have named : (fun e : Str × GroupMember => Put.string e.1 :: e.2.puts) =
      (Codec.string.pair memberCodec).lay := rfl
  simp [puts, codec, members, named]

theorem member_eq : member = (Codec.string.pair memberCodec).dec := by
  simp [member, GroupMember.decode, memberCodec]

theorem filled_members (entry : Call ByteDecoder (Str × GroupMember)) :
    (do let n ← arrayLength
        if n = 0 then pure none else fill entry n GoMap.make) =
      array entry >>= fun es => pure (assignedMembers es) := by
  have each (n : Nat) : (if n = 0 then pure none else fill entry n GoMap.make) =
      times entry n >>= fun es => pure (assignedMembers es) := by
    cases n with
    | zero => rfl
    | succ n =>
      rw [if_neg (Nat.succ_ne_zero n), GoMap.make, fill_eq]
      simp only [times, bind_assoc, pure_bind, assignedMembers, reduceCtorEq, ↓reduceIte]
      rfl
  simp only [array, bind_assoc, each]

theorem decode_eq : decode = codec.dec >>= fun g => pure g.assigned := by
  have rest (mk : GoMap Str GroupMember → Group) :
      (do let groupCount ← arrayLength
          let groupMembers ←
            if groupCount = 0 then pure none else fill member groupCount GoMap.make
          return mk groupMembers) =
        array member >>= fun es => pure (mk (assignedMembers es)) := by
    have filled := congrArg (· >>= fun m => pure (mk m)) (filled_members member)
    simp only [bind_assoc, pure_bind] at filled
    rw [← filled]
    refine congrArg (arrayLength >>= ·) (funext fun n => ?_)
    split <;> simp
  simp only [decode, rest]
  simp [codec, members, member_eq, assigned, GoMap.entries]

/-- Equal up to the order in which a `range` meets the members. -/
structure Same (g g' : Group) : Prop where
  errorCode : g.errorCode = g'.errorCode
  groupID : g.groupID = g'.groupID
  state : g.state = g'.state
  protocolType : g.protocolType = g'.protocolType
  protocol : g.protocol = g'.protocol
  groupMembers : g.groupMembers.entries.Perm g'.groupMembers.entries

theorem Same.refl (g : Group) : g.Same g := ⟨rfl, rfl, rfl, rfl, rfl, .refl _⟩

theorem Same.trans {g g' g'' : Group} (same : g.Same g') (same' : g'.Same g'') : g.Same g'' :=
  ⟨same.errorCode.trans same'.errorCode, same.groupID.trans same'.groupID,
    same.state.trans same'.state, same.protocolType.trans same'.protocolType,
    same.protocol.trans same'.protocol, same.groupMembers.trans same'.groupMembers⟩

/-- The limits of a group, whose member ids are distinct as the keys of a map. -/
structure Limits (g : Group) : Prop where
  groupID : g.groupID.length ≤ maxInt16
  state : g.state.length ≤ maxInt16
  protocolType : g.protocolType.length ≤ maxInt16
  protocol : g.protocol.length ≤ maxInt16
  few : g.groupMembers.entries.length ≤ maxArrayLength
  distinct : (g.groupMembers.entries.map Prod.fst).Nodup
  named : ∀ e ∈ g.groupMembers.entries, e.1.length ≤ maxInt16 ∧
    e.2.clientID.length ≤ maxInt16 ∧ e.2.clientHost.length ≤ maxInt16 ∧
    (e.2.groupMemberMetadata.getD []).length ≤ maxInt32 ∧
    (e.2.groupMemberAssignment.getD []).length ≤ maxInt32

theorem Limits.of_same {g g' : Group} (limits : g'.Limits) (same : g.Same g') : g.Limits where
  groupID := by
    rw [same.groupID]
    exact limits.groupID
  state := by
    rw [same.state]
    exact limits.state
  protocolType := by
    rw [same.protocolType]
    exact limits.protocolType
  protocol := by
    rw [same.protocol]
    exact limits.protocol
  few := by
    rw [same.groupMembers.length_eq]
    exact limits.few
  distinct := (same.groupMembers.map _).nodup_iff.mpr limits.distinct
  named e inside := limits.named e (same.groupMembers.mem_iff.mp inside)

/-- A group whose map is not nil. -/
def made (g : Group) : Group := { g with groupMembers := some g.groupMembers.entries }

theorem fit_made {g : Group} (limits : g.Limits) : codec.Fit g.made := by
  have listed : members.Fit g.made.groupMembers := by
    rw [members, Codec.fit_entries]
    refine ⟨limits.few, fun e inside => ?_, rfl⟩
    simp only [memberCodec, Codec.fit_pair, Codec.fit_iso, Codec.fit_string, Codec.fit_bytes]
    obtain ⟨named, client, host, metadata, assignment⟩ := limits.named e inside
    exact ⟨named, ⟨client, host, metadata, assignment⟩, trivial⟩
  simp only [codec, Codec.fit_iso, Codec.fit_pair, Codec.fit_string, Codec.fit_int16, true_and]
  exact ⟨⟨limits.groupID, limits.state, limits.protocolType, limits.protocol, listed⟩, trivial⟩

theorem assigned_same {g : Group} (limits : g.Limits) : g.assigned.Same g := by
  refine ⟨rfl, rfl, rfl, rfl, rfl, ?_⟩
  change (assignedMembers g.groupMembers.entries).entries.Perm g.groupMembers.entries
  by_cases none : g.groupMembers.entries = []
  · rw [none]
    exact .refl _
  · have distinct : ((g.groupMembers.entries ++ []).map Prod.fst).Nodup := by
      rw [append_nil]
      exact limits.distinct
    have kept := GoMap.assign_of_nodup distinct
    rw [assignedMembers, if_neg none]
    change (GoMap.assign [] g.groupMembers.entries).Perm _
    rw [kept, append_nil]
    exact reverse_perm _

end Group

namespace DescribeGroupsResponse

def codec (version : Int16) : Codec DescribeGroupsResponse :=
  ((Codec.when (1 ≤ version) .millis 0).pair Group.codec.array).iso
    (fun p => ⟨version, p.1, p.2⟩) (fun r => (r.throttleTime, r.groups))

def assigned (r : DescribeGroupsResponse) : DescribeGroupsResponse :=
  { r with groups := r.groups.map Group.assigned }

theorem puts_eq (r : DescribeGroupsResponse) : r.puts = (codec r.apiVersion).lay r := by
  simp [puts, codec, Group.puts_eq]

theorem decode_eq (version : Int16) :
    decode version = (codec version).dec >>= fun r => pure r.assigned := by
  rw [decode, Group.decode_eq, array_map]
  simp [codec, assigned]

structure Same (r r' : DescribeGroupsResponse) : Prop where
  apiVersion : r.apiVersion = r'.apiVersion
  throttleTime : r.throttleTime = r'.throttleTime
  groups : List.Forall₂ Group.Same r.groups r'.groups

theorem Same.refl (r : DescribeGroupsResponse) : r.Same r :=
  ⟨rfl, rfl, forall₂_same.mpr fun g _ => .refl g⟩

theorem Same.trans {r r' r'' : DescribeGroupsResponse} (same : r.Same r') (same' : r'.Same r'') :
    r.Same r'' :=
  ⟨same.apiVersion.trans same'.apiVersion, same.throttleTime.trans same'.throttleTime,
    related_trans .trans same.groups same'.groups⟩

structure Limits (r : DescribeGroupsResponse) : Prop where
  throttleTime : if 1 ≤ r.apiVersion then WholeMillis r.throttleTime else r.throttleTime = 0
  groups : r.groups.length ≤ maxArrayLength
  each : ∀ g ∈ r.groups, g.Limits

theorem Limits.of_same {r r' : DescribeGroupsResponse} (limits : r'.Limits) (same : r.Same r') :
    r.Limits where
  throttleTime := by
    rw [same.apiVersion, same.throttleTime]
    exact limits.throttleTime
  groups := by
    rw [same.groups.length_eq]
    exact limits.groups
  each g inside := by
    obtain ⟨g', inside', equal⟩ := related_of_mem same.groups.flip inside
    exact (limits.each g' inside').of_same equal

theorem persists {r : DescribeGroupsResponse} (limits : r.Limits) :
    ∃ back, RoundTrips r.puts (decode r.apiVersion) back ∧ back.Same r := by
  let made : DescribeGroupsResponse := { r with groups := r.groups.map Group.made }
  have fit : (codec r.apiVersion).Fit made := by
    simp only [codec, Codec.fit_iso, Codec.fit_pair, Codec.fit_array, Codec.fit_when,
      Codec.fit_millis]
    refine ⟨⟨limits.throttleTime, ?_, ?_⟩, rfl⟩
    · rw [length_map]
      exact limits.groups
    · intro g inside
      obtain ⟨g, among, rfl⟩ := mem_map.mp inside
      exact Group.fit_made (limits.each g among)
  have lay : r.puts = (codec r.apiVersion).lay made := by
    have same : r.groups.flatMap Group.codec.lay = made.groups.flatMap Group.codec.lay := by
      rw [flatMap_map]
      rfl
    rw [puts_eq]
    simp only [codec, Codec.iso_lay, Codec.pair_lay, Codec.array_lay, same]
    rw [length_map]
  obtain ⟨b, encoded, decoded⟩ := ((codec r.apiVersion).roundTrips_iff lay rfl).mpr fit
  refine ⟨made.assigned, ⟨b, encoded, ?_⟩, ⟨rfl, rfl, ?_⟩⟩
  · rw [decode_eq, bind_ok decoded]
    rfl
  · change Forall₂ _ ((r.groups.map _).map _) _
    rw [map_map, forall₂_map_left_iff, forall₂_same]
    intro g inside
    exact Group.assigned_same (limits.each g inside)

end DescribeGroupsResponse

end DescribeGroups

/-- Messages of the administration and of the group coordinator survive at every version, and the
maps of members in every order of their entries. -/
theorem coordination_survives :
    (∀ r : AlterConfigsRequest, r.Limits →
      RoundTrips r.puts (AlterConfigsRequest.decode r.apiVersion) r) ∧
    (∀ r : AlterConfigsResponse, r.Limits →
      RoundTrips r.puts (AlterConfigsResponse.decode r.apiVersion) r) ∧
    (∀ r : DescribeConfigsRequest, r.Limits →
      RoundTrips r.puts (DescribeConfigsRequest.decode r.apiVersion) r) ∧
    (∀ r : DescribeConfigsResponse, r.Limits →
      RoundTrips r.puts (DescribeConfigsResponse.decode r.apiVersion) r) ∧
    (∀ c : CreateTopicsResponse, c.Limits →
      RoundTrips c.puts (CreateTopicsResponse.decode c.apiVersion) c) ∧
    (∀ r : DeleteTopicsRequest, r.Limits →
      RoundTrips r.puts (DeleteTopicsRequest.decode r.apiVersion) r) ∧
    (∀ c : DeleteTopicsResponse, c.Limits →
      RoundTrips c.puts (DeleteTopicsResponse.decode c.apiVersion) c) ∧
    (∀ r : FindCoordinatorRequest, r.Limits →
      RoundTrips r.puts (FindCoordinatorRequest.decode r.apiVersion) r) ∧
    (∀ r : FindCoordinatorResponse, r.Limits →
      RoundTrips r.puts (FindCoordinatorResponse.decode r.apiVersion) r) ∧
    (∀ r : SyncGroupRequest, r.Limits →
      RoundTrips r.puts (SyncGroupRequest.decode r.apiVersion) r) ∧
    (∀ r : SyncGroupResponse, r.Limits →
      RoundTrips r.puts (SyncGroupResponse.decode r.apiVersion) r) ∧
    (∀ r : LeaveGroupResponse, r.Limits →
      RoundTrips r.puts (LeaveGroupResponse.decode r.apiVersion) r) ∧
    (∀ r : ListGroupsResponse, r.Limits →
      RoundTrips r.puts (ListGroupsResponse.decode r.apiVersion) r) ∧
    (∀ r order : DescribeGroupsResponse, r.Limits → order.Same r →
      ∃ back, RoundTrips order.puts (DescribeGroupsResponse.decode r.apiVersion) back ∧
        back.Same r) := by
  refine ⟨?_, ?_, ?_, ?_, ?_, ?_, ?_, ?_, ?_, ?_, ?_, ?_, ?_, ?_⟩
  · exact fun r => r.survives_iff.mpr
  · exact fun r => r.survives_iff.mpr
  · exact fun r => r.survives_iff.mpr
  · exact fun r => r.survives_iff.mpr
  · exact fun c => c.survives_iff.mpr
  · exact fun r => r.survives_iff.mpr
  · exact fun c => c.survives_iff.mpr
  · exact fun r => r.survives_iff.mpr
  · exact fun r => r.survives_iff.mpr
  · exact fun r => r.survives_iff.mpr
  · exact fun r => r.survives_iff.mpr
  · exact fun r => r.survives_iff.mpr
  · exact fun r => r.survives_iff.mpr
  · intro r order limits same
    obtain ⟨back, survives, equal⟩ := DescribeGroupsResponse.persists (limits.of_same same)
    rw [same.apiVersion] at survives
    exact ⟨back, survives, equal.trans same⟩

/-- Synonyms, an assignment of null and one of no bytes, and a group with two members. -/
theorem coordination_survives_with_every_field :
    let configs : DescribeConfigsResponse := ⟨1, 1000000, [⟨0, none, 2, [116],
      [⟨[107], some [118], true, false, true, [⟨[108], none, -1⟩]⟩]⟩]⟩
    let sync : SyncGroupRequest := ⟨0, [103], 1, [109], [⟨[109], none⟩, ⟨[110], some []⟩]⟩
    let groups : DescribeGroupsResponse := ⟨0, 0, [⟨0, [103], [115], [99], [112],
      some [([109], ⟨[99], [104], none, some [1]⟩), ([110], ⟨[99], [104], some [], none⟩)]⟩]⟩
    RoundTrips configs.puts (DescribeConfigsResponse.decode 1) configs ∧
    RoundTrips sync.puts (SyncGroupRequest.decode 0) sync ∧
    ∃ back, RoundTrips groups.puts (DescribeGroupsResponse.decode 0) back ∧ back.Same groups := by
  intro configs sync groups
  obtain ⟨-, -, -, described, -, -, -, -, -, synced, -, -, -, listed⟩ := coordination_survives
  have configLimits : configs.Limits := by
    refine ⟨⟨1, rfl⟩, by decide, fun s inside => ?_⟩
    obtain rfl := mem_singleton.mp inside
    refine ⟨by decide, by decide, by decide, fun e inside => ?_⟩
    obtain rfl := mem_singleton.mp inside
    refine ⟨by decide, by decide, ?_⟩
    rw [if_pos (by decide)]
    exact ⟨by decide, by decide⟩
  have groupLimits : groups.Limits := by
    refine ⟨?_, by decide, fun g inside => ?_⟩
    · rw [if_neg (by decide)]
    · obtain rfl := mem_singleton.mp inside
      exact ⟨by decide, by decide, by decide, by decide, by decide, by decide, by decide⟩
  exact ⟨described configs configLimits, synced sync ⟨by decide, by decide, by decide, by decide⟩,
    listed groups groups groupLimits (.refl groups)⟩

/-- An assignment that is longer than its length field can say is not encoded. -/
theorem encode_long_assignment {p : Bytes} (long : maxInt32 < p.length) :
    (encode (SyncGroupResponse.puts ⟨0, 0, 0, some p⟩)).toOption = none := by
  cases encoded : encode (SyncGroupResponse.puts ⟨0, 0, 0, some p⟩) with
  | error why => rfl
  | ok b =>
    have fits : p.length ≤ maxInt32 := fits_of_encode encoded (.bytes (some p))
      (by simp [SyncGroupResponse.puts])
    omega

theorem long_assignment_not_encoded :
    (encode (SyncGroupResponse.puts
      ⟨0, 0, 0, some (List.replicate 2147483648 0)⟩)).toOption = none :=
  encode_long_assignment (by rw [length_replicate]; decide)

end Jocko.Protocol
