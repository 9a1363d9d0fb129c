import Jocko.Broker.Announcements
import Jocko.Broker.Handlers
import Jocko.Broker.Sessions

namespace Jocko.Protocol

open Go ByteDecoder List

section Decoded

variable {α : Type} {item : Call ByteDecoder α} {P : α → Prop}

theorem arrayLength_yields : arrayLength.Yields (· ≤ maxArrayLength) := by
  refine .after fun _ => .after fun n => .after fun _ => ?_
  split
  · exact .stop _
  · exact .pure (by omega)

theorem times_yields (one : item.Yields P) (n : Nat) :
    (times item n).Yields fun xs => xs.length = n ∧ ∀ x ∈ xs, P x := by
  induction n with
  | zero => exact .pure ⟨rfl, fun _ inside => (not_mem_nil inside).elim⟩
  | succ n ih =>
    refine one.bind fun x here => ih.bind fun xs ⟨length, rest⟩ => .pure ⟨?_, ?_⟩
    · rw [length_cons, length]
    · intro y inside
      rcases mem_cons.mp inside with rfl | later
      · exact here
      · exact rest y later

theorem array_yields (one : item.Yields P) :
    (array item).Yields fun xs => xs.length ≤ maxArrayLength ∧ ∀ x ∈ xs, P x :=
  arrayLength_yields.bind fun n few => (times_yields one n).mono fun _ ⟨length, all⟩ =>
    ⟨length ▸ few, all⟩

theorem yields_true (call : Call ByteDecoder α) : call.Yields fun _ => True :=
  fun _ _ _ _ => trivial

variable (version : Int16)

theorem ProduceRequest.decode_yields : (decode version).Yields fun r => r.apiVersion = version ∧
    Short TopicData.data r.topicData := by
  have topic : TopicData.decode.Yields fun td => td.data.length ≤ maxArrayLength :=
    .after fun _ => (array_yields (yields_true _)).bind fun _ few => .pure few.1
  exact .after fun _ => .after fun _ => .after fun _ =>
    (array_yields topic).bind fun _ few => .pure ⟨rfl, few⟩

theorem FetchRequest.decode_yields : (decode version).Yields fun r => r.apiVersion = version ∧
    Short FetchTopic.partitions r.topics := by
  have topic : FetchTopic.decode.Yields fun t => t.partitions.length ≤ maxArrayLength :=
    .after fun _ => (array_yields (yields_true _)).bind fun _ few => .pure few.1
  exact .after fun _ => .after fun _ => .after fun _ => .after fun _ => .after fun _ =>
    (array_yields topic).bind fun _ few => .pure ⟨rfl, few⟩

theorem OffsetsRequest.decode_yields : (decode version).Yields fun r => r.apiVersion = version ∧
    Short OffsetsTopic.partitions r.topics := by
  have topic : (OffsetsTopic.decode version).Yields
      fun t => t.partitions.length ≤ maxArrayLength :=
    .after fun _ => (array_yields (yields_true _)).bind fun _ few => .pure few.1
  exact .after fun _ => .after fun _ => (array_yields topic).bind fun _ few => .pure ⟨rfl, few⟩

theorem LeaderAndISRRequest.decode_yields : (decode version).Yields fun r =>
    r.apiVersion = version ∧ r.partitionStates.length ≤ maxArrayLength :=
  .after fun _ => .after fun _ => (array_yields (yields_true _)).bind fun _ few =>
    .after fun _ => .pure ⟨rfl, few.1⟩

/-- `CreateTopicRequests.Decode` does not keep the version. -/
theorem CreateTopicRequests.decode_yields : (decode version).Yields fun r =>
    r.apiVersion = 0 ∧ r.requests.length ≤ maxArrayLength :=
  (array_yields (yields_true _)).bind fun _ few => .after fun _ => .after fun _ => .pure ⟨rfl, few.1⟩

theorem FindCoordinatorRequest.decode_yields :
    (decode version).Yields fun r => r.apiVersion = version :=
  .after fun _ => .after fun _ => .pure rfl

theorem HeartbeatRequest.decode_yields : (decode version).Yields fun r => r.apiVersion = version :=
  .after fun _ => .after fun _ => .after fun _ => .pure rfl

theorem LeaveGroupRequest.decode_yields : (decode version).Yields fun r => r.apiVersion = version :=
  .after fun _ => .after fun _ => .pure rfl

theorem SyncGroupRequest.decode_yields : (decode version).Yields fun r => r.apiVersion = version :=
  .after fun _ => .after fun _ => .after fun _ => .after fun _ => .pure rfl

theorem DescribeGroupsRequest.decode_yields :
    (decode version).Yields fun r => r.apiVersion = version :=
  .after fun _ => .pure rfl

end Decoded

end Jocko.Protocol

namespace Jocko.Broker

open Go MemDB Fsm Protocol Cluster List
open ByteDecoder (maxArrayLength Reads)

variable {α : Type}

section Handlers

variable {lower : Str → Str} {hash : Bytes → UInt64}

theorem handleData_yields (timeout : Int) (topic : Str) (now : Nat → Int) (data : List Data) :
    ∀ j, (handleData lower hash timeout topic now j data).Yields (·.length = data.length) := by
  induction data with
  | nil => exact fun j => .pure rfl
  | cons p data ih =>
    refine fun j => .after fun answer => ?_
    obtain ⟨code, offset⟩ := answer
    exact (ih (j + 1)).bind fun rest length => .pure (congrArg (· + 1) length)

/-- The responses of a list of topics have the shape of the request. -/
def Shaped {α β γ δ : Type} (parts : α → List β) (answers : γ → List δ) (topics : List α)
    (responses : List γ) : Prop :=
  responses.length = topics.length ∧
    ∀ r ∈ responses, ∃ t ∈ topics, (answers r).length ≤ (parts t).length

theorem Shaped.nil {β γ δ : Type} {parts : α → List β} {answers : γ → List δ} :
    Shaped parts answers [] [] := ⟨rfl, fun _ inside => (not_mem_nil inside).elim⟩

theorem Shaped.cons {α β γ δ : Type} {parts : α → List β} {answers : γ → List δ} {topics : List α}
    {responses : List γ} {t : α} {r : γ} (rest : Shaped parts answers topics responses)
    (first : (answers r).length ≤ (parts t).length) :
    Shaped parts answers (t :: topics) (r :: responses) := by
  refine ⟨congrArg (· + 1) rest.1, fun r' inside => ?_⟩
  rcases mem_cons.mp inside with rfl | later
  · exact ⟨t, mem_cons_self .., first⟩
  · obtain ⟨t', member, fewer⟩ := rest.2 r' later
    exact ⟨t', mem_cons_of_mem _ member, fewer⟩

theorem Shaped.few {β γ δ : Type} {parts : α → List β} {answers : γ → List δ} {topics : List α}
    {responses : List γ} (shaped : Shaped parts answers topics responses)
    (few : Short parts topics) : Short answers responses := by
  refine ⟨shaped.1 ▸ few.1, fun r inside => ?_⟩
  obtain ⟨t, member, fewer⟩ := shaped.2 r inside
  exact Nat.le_trans fewer (few.2 t member)

theorem handleTopicData_yields (timeout : Int) (now : Nat → Nat → Int) (topics : List TopicData) :
    ∀ i, (handleTopicData lower hash timeout now i topics).Yields
      (Shaped TopicData.data ProduceTopicResponse.partitionResponses topics) := by
  induction topics with
  | nil => exact fun i => .pure .nil
  | cons td topics ih =>
    exact fun i => (handleData_yields timeout td.topic (now i) td.data 0).bind
      fun tres length => (ih (i + 1)).bind fun rest shaped => .pure (shaped.cons length.le)

theorem handleProduce_yields (now : Nat → Nat → Int) (req : ProduceRequest) :
    (handleProduce lower hash now req).Yields fun res => res.apiVersion = req.apiVersion ∧
      Shaped TopicData.data ProduceTopicResponse.partitionResponses req.topicData res.responses :=
  (handleTopicData_yields _ _ _ _).bind fun _ shaped => .pure ⟨rfl, shaped⟩

theorem handleFetchTopics_yields (r : FetchRequest) (topics : List FetchTopic) :
    (handleFetchTopics r topics).Yields
      (Shaped FetchTopic.partitions FetchTopicResponse.partitionResponses topics) := by
  induction topics with
  | nil => exact .pure .nil
  | cons t topics ih =>
    exact (Call.Yields.each (handlePartitions r t.topic) rfl (fun _ _ => rfl) t.partitions).bind
      fun ps length => ih.bind fun rest shaped => .pure (shaped.cons length.le)

theorem handleFetch_yields (r : FetchRequest) :
    (handleFetch r).Yields fun res => res.apiVersion = r.apiVersion ∧
      Shaped FetchTopic.partitions FetchTopicResponse.partitionResponses r.topics res.responses :=
  (handleFetchTopics_yields _ _).bind fun _ shaped => .pure ⟨rfl, shaped⟩

theorem handleOffsetPartitions_yields (topic : Str) (ps : List OffsetsPartition) :
    (handleOffsetPartitions topic ps).Yields (·.length ≤ ps.length) := by
  induction ps with
  | nil => exact .pure (Nat.le_refl _)
  | cons p ps ih =>
    refine .after fun pres => ih.bind fun rest fewer => .pure ?_
    have one : pres.toList.length ≤ 1 := by cases pres <;> simp
    rw [length_append, length_cons]
    omega

theorem handleOffsetTopics_yields (topics : List OffsetsTopic) : (handleOffsetTopics topics).Yields
    (Shaped OffsetsTopic.partitions OffsetResponse.partitionResponses topics) := by
  induction topics with
  | nil => exact .pure .nil
  | cons t topics ih =>
    exact (handleOffsetPartitions_yields t.topic t.partitions).bind
      fun ps fewer => ih.bind fun rest shaped => .pure (shaped.cons fewer)

theorem handleOffsets_yields (req : OffsetsRequest) :
    (handleOffsets req).Yields fun res => res.apiVersion = req.apiVersion ∧
      Shaped OffsetsTopic.partitions OffsetResponse.partitionResponses req.topics res.responses :=
  (handleOffsetTopics_yields _).bind fun _ shaped => .pure ⟨rfl, shaped⟩

theorem handleLeaderAndISR_yields (req : LeaderAndISRRequest) :
    (handleLeaderAndISR lower req).Yields fun res => res.apiVersion = req.apiVersion ∧
      res.partitions.length = req.partitionStates.length :=
  (Call.Yields.each (handleStates lower) rfl (fun _ _ => rfl) _).bind fun _ length => .pure ⟨rfl, length⟩

theorem handleCreateTopic_yields (reqs : CreateTopicRequests) :
    (handleCreateTopic lower reqs).Yields fun res => res.apiVersion = reqs.apiVersion ∧
      res.topicErrorCodes.length = reqs.requests.length :=
  (Call.Yields.each (handleCreates lower _) rfl (fun _ _ => rfl) _).bind
    fun _ length => .pure ⟨rfl, length⟩

theorem handleDeleteTopics_yields (reqs : DeleteTopicsRequest) :
    (handleDeleteTopics lower reqs).Yields fun res => res.apiVersion = reqs.apiVersion ∧
      res.topicErrorCodes.length = reqs.topics.length :=
  (Call.Yields.each (handleDeletes lower _) rfl (fun _ _ => rfl) _).bind
    fun _ length => .pure ⟨rfl, length⟩

theorem handleFindCoordinator_yields (replicationFactor : Int16) (req : FindCoordinatorRequest) :
    (handleFindCoordinator lower hash replicationFactor req).Yields
      fun res => res.apiVersion = req.apiVersion := by
  refine .after fun topic => ?_
  cases topic with
  | none => exact .pure rfl
  | some topic =>
    dsimp only
    split
    · exact .stop _
    · refine .after fun s => ?_
      split
      · exact .pure rfl
      · refine .after fun broker => ?_
        cases broker with
        | none => exact .stop _
        | some broker => exact .after fun address => .pure rfl

theorem handleHeartbeat_yields (r : HeartbeatRequest) :
    (handleHeartbeat lower r).Yields fun res => res.apiVersion = r.apiVersion := by
  refine .after fun group => ?_
  cases group with
  | none => exact .pure rfl
  | some group => exact .pure rfl

theorem handleLeaveGroup_yields (r : LeaveGroupRequest) :
    (handleLeaveGroup lower r).Yields fun res => res.apiVersion = r.apiVersion := by
  refine .after fun group => ?_
  cases group with
  | none => exact .pure rfl
  | some group =>
    dsimp only
    split
    · exact .pure rfl
    · refine .after fun group => .after fun applied => ?_
      cases applied <;> exact .pure rfl

theorem syncAssignments_yields (r : SyncGroupRequest) (res : SyncGroupResponse) (group : GroupRef) :
    (syncAssignments lower r res group).Yields fun res' => res'.apiVersion = res.apiVersion := by
  unfold syncAssignments
  split
  · split
    · exact .stop _
    · refine .after fun applied => ?_
      cases applied <;> exact .pure rfl
  · split
    · exact .pure rfl
    · exact .stop _

theorem handleSyncGroup_yields (r : SyncGroupRequest) :
    (handleSyncGroup lower r).Yields fun res => res.apiVersion = r.apiVersion := by
  refine .after fun group => ?_
  cases group with
  | none => exact .pure rfl
  | some group =>
    dsimp only
    split
    · exact .pure rfl
    · split
      · exact .pure rfl
      · split
        case h_4 | h_5 | h_6 => exact syncAssignments_yields _ _ _
        all_goals exact .pure rfl

theorem handleDescribeGroups_yields (req : DescribeGroupsRequest) :
    (handleDescribeGroups lower req).Yields
      fun res => res.apiVersion = req.apiVersion ∧ res.groups = [] :=
  .after fun _ => .pure ⟨rfl, rfl⟩

end Handlers

section Join

variable {lower : Str → Str} {c c' : Cluster}
variable {group : GroupRef}

theorem edit_raft {f : Fsm.Group → Fsm.Group} {group' : GroupRef}
    (edited : (group.edit f).run c = .ok group' c') :
    c'.raft = c.raft ∧ c'.applied = c.applied := by
  unfold GroupRef.edit at edited
  dsimp only at edited
  split at edited
  · cases edited
    exact ⟨rfl, rfl⟩
  · cases edited
    exact ⟨rfl, rfl⟩

variable {memberID : Str}

theorem joinMember_eq {clientID uuid : Str} {joined : Str × GroupRef}
    (ran : (joinMember clientID uuid memberID group).run c = .ok joined c') :
    joined.1 = memberName clientID uuid memberID ∧
      joined.2.val = withMember memberID (memberName clientID uuid memberID) group.val ∧
      c'.raft = c.raft ∧ c'.applied = c.applied := by
  unfold memberName withMember
  unfold joinMember at ran
  split at ran
  · rename_i blank
    dsimp only at ran
    split at ran
    · cases ran
    · rename_i members set
      obtain ⟨edited, c₁, written, returned⟩ := bind_eq_ok ran
      cases returned
      obtain ⟨entries, here, rfl⟩ := Option.map_eq_some_iff.mp set
      refine ⟨by rw [if_pos blank], ?_, edit_raft written⟩
      rw [if_pos blank, if_pos blank, GroupRef.edit_val written, GoMap.entries, here]
      rfl
  · rename_i named
    cases ran
    exact ⟨by rw [if_neg named], by rw [if_neg named], rfl, rfl⟩

theorem joinLeader_raft {group' : GroupRef}
    (led : (joinLeader memberID group).run c = .ok group' c') :
    c'.raft = c.raft ∧ c'.applied = c.applied := by
  unfold joinLeader at led
  split at led
  · exact edit_raft led
  · cases led
    exact ⟨rfl, rfl⟩

/-- The members in the answer to a join: those of the group if raft takes it and the client leads
it, and otherwise none. -/
def listed (c : Cluster) (id : Str) (g : Fsm.Group) : Nat :=
  match c.raft c.applied with
  | .error _ => 0
  | .ok _ => if g.leaderID = id then g.members.entries.length else 0

theorem registerJoined_eq {r : JoinGroupRequest} {res : JoinGroupResponse}
    (ran : (registerJoined lower r memberID group).run c = .ok res c') :
    res.apiVersion = r.apiVersion ∧ res.members.length = listed c memberID group.val := by
  unfold registerJoined at ran
  unfold listed
  cases outcome : c.raft c.applied with
  | error cause =>
    rw [bind_ok (attempt_err (raftApply_error outcome))] at ran
    cases ran
    exact ⟨rfl, rfl⟩
  | ok idx =>
    rw [bind_ok (attempt_ok (raftApply_ok outcome))] at ran
    cases ran
    refine ⟨rfl, ?_⟩
    dsimp only
    split
    · rw [length_map]
    · rfl

/-- The group that a join registers. -/
def joinedGroup (lower : Str → Str) (c : Cluster) (clientID uuid groupID memberID : Str) :
    Fsm.Group :=
  withLeader (memberName clientID uuid memberID)
    (withMember memberID (memberName clientID uuid memberID) (groupFor lower c groupID))

theorem handleJoinGroup_eq {clientID uuid : Str} {r : JoinGroupRequest} {res : JoinGroupResponse}
    (ran : (handleJoinGroup lower clientID uuid r).run c = .ok res c') :
    res.apiVersion = r.apiVersion ∧ res.members.length =
      listed c (memberName clientID uuid r.memberID)
        (joinedGroup lower c clientID uuid r.groupID r.memberID) := by
  unfold handleJoinGroup at ran
  rw [bind_ok (getGroup_run r.groupID),
    bind_ok (show configID.run c = .ok c.id c from rfl)] at ran
  unfold joinGroup at ran
  obtain ⟨⟨memberID, group⟩, c₁, joined, ran⟩ := bind_eq_ok ran
  obtain ⟨name, val, raft₁, applied₁⟩ := joinMember_eq joined
  obtain ⟨group₂, c₂, led, registered⟩ := bind_eq_ok ran
  obtain ⟨raft₂, applied₂⟩ := joinLeader_raft led
  obtain ⟨version, members⟩ := registerJoined_eq registered
  dsimp only at name val
  subst name
  refine ⟨version, members.trans ?_⟩
  have found : (((c.fsm.getGroup lower r.groupID).2.map fun row =>
      (⟨some row.addr, row.val⟩ : GroupRef)).getD (newGroup r.groupID c.id)).val =
      groupFor lower c r.groupID := by
    unfold groupFor Cluster.groupAt Kind.row?
    have row : (c.fsm.getGroup lower r.groupID).2 =
        (groupKind lower).first c.fsm (lowerKey lower r.groupID) := rfl
    rw [row]
    cases (groupKind lower).first c.fsm (lowerKey lower r.groupID) with
    | none => rfl
    | some row => rfl
  unfold listed joinedGroup
  rw [raft₂, applied₂, raft₁, applied₁, joinLeader_val led, val, found]

end Join

/-- A request of a client and the response to it: the request is encoded and decoded at the
version, handled, and the body of the response is encoded. -/
structure Exchange (lower : Str → Str) (hash : Bytes → UInt64) (kind : RequestKind)
    (version : Int16) where
  outside : Surroundings
  broker : Broker
  request : kind.Body
  sent : Bytes
  received : kind.Body
  decoder : ByteDecoder
  body : ResponseBody
  after : Broker
  bytes : Bytes
  asked : kind.version request = version
  encoded : encode (kind.puts request) = .ok sent
  decoded : (kind.decode version).run (newDecoder sent) = .ok received decoder
  handled : (respond lower hash outside kind received).run broker = .ok body after
  answered : encode body.puts = .ok bytes

/-- The lists in the response are not longer than `ArrayLength` allows. Only these can be, as the
others have the lengths of lists that were decoded. -/
def Few (lower : Str → Str) (outside : Surroundings) (b : Broker) :
    (kind : RequestKind) → kind.Body → Prop
  | .metadata, r =>
    (outside.members.filter fun m => m.status = .alive ∧
      (isBroker m.toSerfMember).isSome).length ≤ maxArrayLength ∧
    if MetadataRequest.topics r = [] then
      (b.cluster.fsm.getTopics lower).2.length ≤ maxArrayLength ∧
      ∀ topic ∈ (b.cluster.fsm.getTopics lower).2,
        topic.val.partitions.entries.length ≤ maxArrayLength
    else
      (MetadataRequest.topics r).length ≤ maxArrayLength ∧
      ∀ name ∈ MetadataRequest.topics r, ∀ topic ∈ (b.cluster.fsm.getTopic lower name).2,
        topic.val.partitions.entries.length ≤ maxArrayLength
  | .joinGroup, r =>
    listed b.cluster (memberName outside.clientID outside.uuid (JoinGroupRequest.memberID r))
      (joinedGroup lower b.cluster outside.clientID outside.uuid (JoinGroupRequest.groupID r)
        (JoinGroupRequest.memberID r)) ≤ maxArrayLength
  | .listGroups, _ => (b.cluster.fsm.getGroups lower).2.length ≤ maxArrayLength
  | .deleteTopics, r => (DeleteTopicsRequest.topics r).length ≤ maxArrayLength
  | _, _ => True

/-- The requests whose responses are not read as they are written. -/
def Misread : (kind : RequestKind) → Int16 → kind.Body → Prop
  | .produce, version, r => version ≤ 1 ∧ ∃ td ∈ ProduceRequest.topicData r, td.data ≠ []
  | .joinGroup, version, _ => 1 ≤ version
  | .heartbeat, version, _ => 1 ≤ version
  | .apiVersions, _, _ => True
  | .createTopics, version, _ => 1 ≤ version
  | _, _, _ => False

namespace Exchange

variable {lower : Str → Str} {hash : Bytes → UInt64} {kind : RequestKind} {version : Int16}

/-- The response has the version of the request, and decoding it ends at its end. -/
def InVersion (x : Exchange lower hash kind version) : Prop :=
  x.body.apiVersion = version ∧
    (x.body.decode version).run (newDecoder x.bytes) = .ok () ⟨x.bytes, x.bytes.length, []⟩

section

variable (x : Exchange lower hash kind version)
include x

theorem inVersion_iff {puts : List Put}
    {decode : Int16 → Call ByteDecoder α} {ok : Prop} (body : x.body = .of version puts decode)
    (parses : Parses (decode version) puts ok) : x.InVersion ↔ ok := by
  have answered := x.answered
  rw [body] at answered
  rw [← (parses.map fun _ => ()).consumes_iff answered, InVersion, body]
  constructor
  · rintro ⟨-, ran⟩
    exact ⟨(), ran⟩
  · rintro ⟨_, ran⟩
    exact ⟨rfl, ran⟩

theorem response {handler : Call Broker α}
    {body : α → ResponseBody} (dispatch : respond lower hash x.outside kind x.received =
      handler >>= fun res => pure (body res)) :
    ∃ res b, x.body = body res ∧ handler.run x.broker = .ok res b := by
  have handled := x.handled
  rw [dispatch] at handled
  obtain ⟨res, b, ran, returned⟩ := bind_eq_ok handled
  exact ⟨res, b, (Result.ok.inj returned).1.symm, ran⟩

theorem response_yields {handler : Call Broker α} {body : α → ResponseBody} {P : α → Prop}
    (dispatch : respond lower hash x.outside kind x.received =
      handler >>= fun res => pure (body res))
    (yields : handler.Yields P) : ∃ res, x.body = body res ∧ P res := by
  obtain ⟨res, b, body, ran⟩ := x.response dispatch
  exact ⟨res, body, yields _ _ _ ran⟩

end

theorem produce_inVersion (x : Exchange lower hash .produce version)
    (read : ¬ Misread .produce version x.received) : x.InVersion := by
  obtain ⟨res, body, kept, shaped⟩ := x.response_yields rfl (handleProduce_yields _ _)
  obtain ⟨same, few⟩ := ProduceRequest.decode_yields version _ _ _ x.decoded
  rw [same] at kept
  subst kept
  refine (x.inVersion_iff body (ProduceResponse.parses res ?_)).mpr (shaped.few few)
  intro t inside p member
  obtain ⟨td, asked, fewer⟩ := shaped.2 t inside
  have some : td.data ≠ [] :=
    ne_nil_of_length_pos (Nat.lt_of_lt_of_le (length_pos_of_mem member) fewer)
  have later : ¬ res.apiVersion ≤ 1 := fun old => read ⟨old, td, asked, some⟩
  rw [Int16.le_iff_toInt_le] at later ⊢
  have one : (1 : Int16).toInt = 1 := rfl
  have two : (2 : Int16).toInt = 2 := rfl
  omega

theorem fetch_inVersion (x : Exchange lower hash .fetch version) (old : ¬ 4 ≤ version) :
    x.InVersion := by
  obtain ⟨res, body, kept, shaped⟩ := x.response_yields rfl (handleFetch_yields _)
  obtain ⟨same, few⟩ := FetchRequest.decode_yields version _ _ _ x.decoded
  rw [same] at kept
  subst kept
  exact (x.inVersion_iff body (FetchResponse.parses_old res old)).mpr (shaped.few few)

theorem offsets_inVersion (x : Exchange lower hash .offsets version) : x.InVersion := by
  obtain ⟨res, body, kept, shaped⟩ := x.response_yields rfl (handleOffsets_yields _)
  obtain ⟨same, few⟩ := OffsetsRequest.decode_yields version _ _ _ x.decoded
  rw [same] at kept
  subst kept
  exact (x.inVersion_iff body (OffsetsResponse.parses res)).mpr (shaped.few few)

theorem leaderAndISR_inVersion (x : Exchange lower hash .leaderAndISR version) : x.InVersion := by
  obtain ⟨res, body, kept, length⟩ := x.response_yields rfl (handleLeaderAndISR_yields _)
  obtain ⟨same, few⟩ := LeaderAndISRRequest.decode_yields version _ _ _ x.decoded
  rw [same] at kept
  subst kept
  exact (x.inVersion_iff body (LeaderAndISRResponse.parses res)).mpr (length ▸ few)

theorem findCoordinator_inVersion (x : Exchange lower hash .findCoordinator version) :
    x.InVersion := by
  obtain ⟨res, body, kept⟩ := x.response_yields rfl (handleFindCoordinator_yields _ _)
  rw [FindCoordinatorRequest.decode_yields version _ _ _ x.decoded] at kept
  subst kept
  exact (x.inVersion_iff body (FindCoordinatorResponse.parses res)).mpr trivial

theorem heartbeat_inVersion (x : Exchange lower hash .heartbeat version) (old : ¬ 1 ≤ version) :
    x.InVersion := by
  obtain ⟨res, body, kept⟩ := x.response_yields rfl (handleHeartbeat_yields _)
  rw [HeartbeatRequest.decode_yields version _ _ _ x.decoded] at kept
  subst kept
  exact (x.inVersion_iff body (HeartbeatResponse.parses res old)).mpr trivial

theorem leaveGroup_inVersion (x : Exchange lower hash .leaveGroup version) : x.InVersion := by
  obtain ⟨res, body, kept⟩ := x.response_yields rfl (handleLeaveGroup_yields _).zoom
  rw [LeaveGroupRequest.decode_yields version _ _ _ x.decoded] at kept
  subst kept
  exact (x.inVersion_iff body (LeaveGroupResponse.parses res)).mpr trivial

theorem syncGroup_inVersion (x : Exchange lower hash .syncGroup version) : x.InVersion := by
  obtain ⟨res, body, kept⟩ := x.response_yields rfl (handleSyncGroup_yields _).zoom
  rw [SyncGroupRequest.decode_yields version _ _ _ x.decoded] at kept
  subst kept
  exact (x.inVersion_iff body (SyncGroupResponse.parses res)).mpr trivial

theorem describeGroups_inVersion (x : Exchange lower hash .describeGroups version) :
    x.InVersion := by
  obtain ⟨res, body, kept, none⟩ := x.response_yields rfl (handleDescribeGroups_yields _)
  rw [DescribeGroupsRequest.decode_yields version _ _ _ x.decoded] at kept
  subst kept
  exact (x.inVersion_iff body (DescribeGroupsResponse.parses res none)).mpr trivial

theorem createTopics_inVersion (x : Exchange lower hash .createTopics 0) : x.InVersion := by
  obtain ⟨res, body, kept, length⟩ := x.response_yields rfl (handleCreateTopic_yields _)
  obtain ⟨same, few⟩ := CreateTopicRequests.decode_yields 0 _ _ _ x.decoded
  rw [same] at kept
  rw [kept] at body
  have parses := CreateTopicsResponse.parses res
  rw [kept] at parses
  exact (x.inVersion_iff body parses).mpr (length ▸ few)

/-- The server reads back the first field of what was sent. -/
theorem decoded_rest (x : Exchange lower hash kind version) (op : Put)
    {first : Call ByteDecoder α} {next : α → Call ByteDecoder kind.Body} {more : List Put}
    {value : α} (plain : ∀ op ∈ kind.puts x.request, op.Plain)
    (puts : kind.puts x.request = op :: more)
    (reads : op.Fits → Reads first op.raw value)
    (decode : kind.decode version = first >>= next) :
    ∃ d, d.Rest (rawOf more) ∧ (next value).run d = .ok x.received x.decoder := by
  have fits := fits_of_encode x.encoded
  have sent := x.encoded
  rw [encode_plain plain fits] at sent
  have decoded := x.decoded
  rw [decode, ← Except.ok.inj sent] at decoded
  have here : (newDecoder (rawOf (kind.puts x.request))).Rest (op.raw ++ rawOf more) := by
    rw [puts]
    exact ByteDecoder.rest_newDecoder _
  rw [puts] at fits
  rw [show (kind.puts x.request).flatMap Put.raw = rawOf (kind.puts x.request) from rfl,
    bind_ok (reads (fits op (mem_cons_self ..)) _ _ here)] at decoded
  exact ⟨_, here.skip, decoded⟩

theorem deleteTopics_inVersion_iff (x : Exchange lower hash .deleteTopics version) :
    x.InVersion ↔ Few lower x.outside x.broker .deleteTopics x.request := by
  obtain ⟨res, body, kept, length⟩ := x.response_yields rfl (handleDeleteTopics_yields _)
  obtain ⟨d, -, ran⟩ := x.decoded_rest (.stringArray x.request.topics)
    (by simp [RequestKind.puts, DeleteTopicsRequest.puts, Put.Plain]) rfl
    (fun fits => Reads.stringArray (Parses.lt_of_fits fits.1) fits.2) rfl
  obtain ⟨timeout, d', -, returned⟩ := bind_eq_ok ran
  rw [← (Result.ok.inj returned).1] at kept length
  subst kept
  rw [x.inVersion_iff body (DeleteTopicsResponse.parses res), length]
  rfl

section Metadata

theorem liveBrokers_length : ∀ {members : List Member} {brokers : List Protocol.Broker},
    liveBrokers members = .ok brokers → brokers.length = (members.filter fun m =>
      m.status = .alive ∧ (isBroker m.toSerfMember).isSome).length
  | [], _, live => by
    cases live
    rfl
  | m :: members, brokers, live => by
    unfold liveBrokers at live
    rw [filter_cons]
    split at live
    · rename_i gone
      rw [if_neg (by simp [gone])]
      exact liveBrokers_length live
    · rename_i alive
      cases found : isBroker m.toSerfMember with
      | none =>
        rw [found] at live
        rw [if_neg (by simp)]
        exact liveBrokers_length live
      | some broker =>
        rw [found] at live
        dsimp only at live
        cases address : broker.hostPort with
        | error why =>
          rw [address] at live
          cases live
        | ok hostPort =>
          cases rest : liveBrokers members with
          | error why =>
            rw [address, rest] at live
            cases live
          | ok others =>
            rw [address, rest] at live
            cases live
            rw [if_pos (by simpa using alive), length_cons, length_cons,
              liveBrokers_length rest]

theorem handleMetadata_eq {members : List Member} {req : MetadataRequest} {b b' : Broker}
    {res : MetadataResponse} (ran : (handleMetadata lower members req).run b = .ok res b') :
    res.apiVersion = req.apiVersion ∧ liveBrokers members = .ok res.brokers ∧
      res.topicMetadata = if req.topics = [] then (b.cluster.fsm.getTopics lower).2.map fun t =>
            topicMetadata lower b.cluster.fsm t.val
        else req.topics.map (namedMetadata lower b.cluster.fsm) := by
  unfold handleMetadata at ran
  rw [bind_ok (show (onCluster state).run b = .ok b.cluster.fsm b from rfl)] at ran
  split at ran
  · cases ran
  · cases live : liveBrokers members with
    | error why =>
      rw [live] at ran
      cases ran
    | ok brokers =>
      rw [live] at ran
      cases ran
      exact ⟨rfl, rfl, rfl⟩

theorem namedMetadata_few (s : Store) (name : Str) :
    (namedMetadata lower s name).partitionMetadata.length ≤ maxArrayLength ↔
      ∀ topic ∈ (s.getTopic lower name).2,
        topic.val.partitions.entries.length ≤ maxArrayLength := by
  unfold namedMetadata
  cases (s.getTopic lower name).2 with
  | none => simp
  | some topic => simp [topicMetadata]

theorem metadata_inVersion_iff (x : Exchange lower hash .metadata version) :
    x.InVersion ↔ Few lower x.outside x.broker .metadata x.request := by
  obtain ⟨res, b, body, ran⟩ := x.response rfl
  obtain ⟨kept, live, topics⟩ := handleMetadata_eq ran
  obtain ⟨d, -, read⟩ := x.decoded_rest (.stringArray x.request.topics)
    (by
      simp only [RequestKind.puts, MetadataRequest.puts]
      split <;> simp [Put.Plain]) rfl
    (fun fits => Reads.stringArray (Parses.lt_of_fits fits.1) fits.2) rfl
  obtain ⟨allow, d', -, returned⟩ := bind_eq_ok read
  rw [← (Result.ok.inj returned).1] at kept topics
  subst kept
  rw [x.inVersion_iff body (MetadataResponse.parses res), liveBrokers_length live, topics]
  dsimp only [Few]
  by_cases all : x.request.topics = []
  · rw [if_pos all, if_pos all, Short, length_map, forall_mem_map]
    simp only [topicMetadata, length_map]
  · rw [if_neg all, if_neg all, Short, length_map, forall_mem_map]
    simp only [namedMetadata_few]

end Metadata

theorem listGroups_inVersion_iff (x : Exchange lower hash .listGroups version) :
    x.InVersion ↔ Few lower x.outside x.broker .listGroups x.request := by
  obtain ⟨res, b, body, ran⟩ := x.response rfl
  have same : x.received.apiVersion = version := by
    rw [← (Result.ok.inj x.decoded).1]
  cases ran
  dsimp only at body
  have parses := ListGroupsResponse.parses ⟨x.received.apiVersion, 0, 0,
    (x.broker.cluster.fsm.getGroups lower).2.map fun group =>
      (⟨group.val.group, ascii "consumer"⟩ : ListGroup)⟩
  rw [same] at body parses
  rw [x.inVersion_iff body parses, length_map]
  rfl

/-- The server reads back the group and the member of a join. -/
theorem joinGroup_received (x : Exchange lower hash .joinGroup version) (old : ¬ 1 ≤ version) :
    x.received.apiVersion = version ∧ x.received.groupID = x.request.groupID ∧
      x.received.memberID = x.request.memberID := by
  have asked : x.request.apiVersion = version := x.asked
  have puts : RequestKind.puts .joinGroup x.request = .string x.request.groupID ::
      (.int32 x.request.sessionTimeout :: (.string x.request.memberID ::
        (.string x.request.protocolType ::
          x.request.groupProtocols.flatMap GroupProtocol.puts))) := by
    simp [RequestKind.puts, JoinGroupRequest.puts, asked, old]
  have plain : ∀ op ∈ RequestKind.puts .joinGroup x.request, op.Plain := by
    rw [puts]
    intro op inside
    simp only [mem_cons, mem_flatMap, GroupProtocol.puts, not_mem_nil,
      or_false] at inside
    rcases inside with rfl | rfl | rfl | rfl | ⟨p, -, rfl | rfl⟩ <;> trivial
  obtain ⟨d, here, ran⟩ := x.decoded_rest (.string x.request.groupID) plain puts
    (fun fits => Reads.string fits) rfl
  have short : x.request.memberID.length ≤ maxInt16 :=
    fits_of_encode x.encoded (.string x.request.memberID) (by rw [puts]; simp)
  rw [rawOf_cons] at here
  rw [bind_ok (Reads.int32 _ _ _ here)] at ran
  have after := here.skip
  rw [rawOf_cons] at after
  have skipped : (ByteDecoder.when (1 ≤ version) ByteDecoder.int32 0).run
      (d.skip (Put.int32 x.request.sessionTimeout).raw.length) =
      .ok 0 (d.skip (Put.int32 x.request.sessionTimeout).raw.length) := by
    unfold ByteDecoder.when
    rw [if_neg old]
    rfl
  rw [bind_ok skipped, bind_ok (Reads.string short _ _ after)] at ran
  obtain ⟨protocolType, d₁, -, ran⟩ := bind_eq_ok ran
  obtain ⟨protocols, d₂, -, returned⟩ := bind_eq_ok ran
  rw [← (Result.ok.inj returned).1]
  exact ⟨rfl, rfl, rfl⟩

theorem joinGroup_inVersion_iff (x : Exchange lower hash .joinGroup version)
    (old : ¬ 1 ≤ version) : x.InVersion ↔ Few lower x.outside x.broker .joinGroup x.request := by
  obtain ⟨res, b, body, ran⟩ := x.response rfl
  obtain ⟨same, group, member⟩ := x.joinGroup_received old
  have joined : ∃ c', (handleJoinGroup lower x.outside.clientID x.outside.uuid x.received).run
      x.broker.cluster = .ok res c' := by
    unfold onCluster zoom at ran
    dsimp only at ran
    split at ran
    · rename_i value c' returned
      cases ran
      exact ⟨c', returned⟩
    · cases ran
  obtain ⟨c', joined⟩ := joined
  obtain ⟨kept, length⟩ := handleJoinGroup_eq joined
  rw [same] at kept
  rw [group, member] at length
  subst kept
  rw [x.inVersion_iff body (JoinGroupResponse.parses res old), length]
  rfl

theorem eq_zero_or_one {v : Int16} (low : 0 ≤ v) (high : v ≤ 1) : v = 0 ∨ v = 1 := by
  rw [Int16.le_iff_toInt_le] at low high
  rw [← Int16.toInt_inj, ← Int16.toInt_inj]
  have zero : (0 : Int16).toInt = 0 := rfl
  have one : (1 : Int16).toInt = 1 := rfl
  omega

theorem offered_bounds (low high : Int16) (offered : kind.Offered version)
    (entry : ∀ av ∈ offeredVersions, av.apiKey = kind.key →
      av.minVersion = low ∧ av.maxVersion = high) : low ≤ version ∧ version ≤ high := by
  obtain ⟨av, inside, key, above, below⟩ := offered
  obtain ⟨rfl, rfl⟩ := entry av inside key
  exact ⟨above, below⟩

/-- Where the response is read as it is written, only its lists can be too long. -/
theorem inVersion_iff_few (x : Exchange lower hash kind version) (offered : kind.Offered version)
    (read : ¬ Misread kind version x.received) :
    x.InVersion ↔ Few lower x.outside x.broker kind x.request := by
  cases kind with
  | produce => exact iff_of_true (x.produce_inVersion read) trivial
  | fetch =>
    have bounds := offered_bounds 0 3 offered (by decide)
    have old : ¬ 4 ≤ version := fun recent => absurd (Int16.le_trans recent bounds.2) (by decide)
    exact iff_of_true (x.fetch_inVersion old) trivial
  | offsets => exact iff_of_true x.offsets_inVersion trivial
  | metadata => exact x.metadata_inVersion_iff
  | leaderAndISR => exact iff_of_true x.leaderAndISR_inVersion trivial
  | stopReplica => cases x.handled
  | updateMetadata => cases x.handled
  | controlledShutdown => cases x.handled
  | offsetCommit => cases x.handled
  | offsetFetch =>
    -- the broker answers these requests, and does not offer them
    obtain ⟨av, inside, key, -⟩ := offered
    have never : ∀ av ∈ offeredVersions, av.apiKey ≠ 9 := by decide
    exact absurd key (never av inside)
  | findCoordinator => exact iff_of_true x.findCoordinator_inVersion trivial
  | joinGroup => exact x.joinGroup_inVersion_iff read
  | heartbeat => exact iff_of_true (x.heartbeat_inVersion read) trivial
  | leaveGroup => exact iff_of_true x.leaveGroup_inVersion trivial
  | syncGroup => exact iff_of_true x.syncGroup_inVersion trivial
  | describeGroups => exact iff_of_true x.describeGroups_inVersion trivial
  | listGroups => exact x.listGroups_inVersion_iff
  | saslHandshake => cases x.handled
  | apiVersions => exact absurd trivial read
  | createTopics =>
    have bounds := offered_bounds 0 1 offered (by decide)
    rcases eq_zero_or_one bounds.1 bounds.2 with rfl | rfl
    · exact iff_of_true x.createTopics_inVersion trivial
    · exact absurd (Int16.le_refl 1) read
  | deleteTopics => exact x.deleteTopics_inVersion_iff

section Misread

variable (lower hash)

/-- A client without an id, and nobody in the ring. -/
def nobody : Surroundings := ⟨[], [], fun _ _ => 0, [], 1⟩

/-- A broker that knows nothing, and whose writes raft refuses. -/
def blank : Broker := started (lone Store.new fun _ => .error .fault)

theorem createTopics_misread : ∃ x : Exchange lower hash .createTopics 1, ¬ x.InVersion := by
  refine ⟨⟨nobody, blank, ⟨1, [], 0, false⟩, _, _, _, _, _, _, rfl, rfl, rfl, rfl, rfl⟩, ?_⟩
  rintro ⟨version, -⟩
  exact absurd (show (0 : Int16) = 1 from version) (by decide)

theorem heartbeat_misread : ∃ x : Exchange lower hash .heartbeat 1, ¬ x.InVersion := by
  refine ⟨⟨nobody, blank, ⟨1, [], 0, []⟩, _, _, _, _, _, _, rfl, rfl, rfl, rfl, rfl⟩, ?_⟩
  rintro ⟨-, ran⟩
  cases ran

theorem joinGroup_misread : ∃ x : Exchange lower hash .joinGroup 1,
    Few lower x.outside x.broker .joinGroup x.request ∧ ¬ x.InVersion := by
  refine ⟨⟨nobody, blank, ⟨1, [], 0, 0, [], [], [⟨[], some []⟩]⟩, _, _, _, _, _, _,
    rfl, rfl, rfl, rfl, rfl⟩, ?_, ?_⟩
  · exact Nat.zero_le _
  · rintro ⟨-, ran⟩
    cases ran

set_option maxRecDepth 4000 in
/-- The error code and the first half of the length of the list are read as the length. -/
theorem apiVersions_misread (version : Int16) (either : version = 0 ∨ version = 1) :
    ∃ x : Exchange lower hash .apiVersions version, ¬ x.InVersion := by
  obtain ⟨bytes, encoded, decoded, length⟩ : ∃ bytes,
      encode (APIVersionsResponse.puts ⟨0, 0, offeredVersions, 0⟩) = .ok bytes ∧
      (APIVersionsResponse.decode 0).run (newDecoder bytes) =
        .ok ⟨0, 0, [], 0⟩ ⟨bytes, 4, []⟩ ∧ bytes.length = 102 := ⟨_, rfl, rfl, rfl⟩
  refine ⟨⟨nobody, blank, ⟨version⟩, [], ⟨version⟩, ⟨[], 0, []⟩,
    .of 0 (APIVersionsResponse.puts ⟨0, 0, offeredVersions, 0⟩) APIVersionsResponse.decode, blank,
    bytes, rfl, rfl, rfl, rfl, encoded⟩, ?_⟩
  rintro ⟨same, ran⟩
  rcases either with rfl | rfl
  · have rest : (ResponseBody.of 0 (APIVersionsResponse.puts ⟨0, 0, offeredVersions, 0⟩)
        APIVersionsResponse.decode).decode 0 = (do let _ ← APIVersionsResponse.decode 0) := rfl
    rw [rest, bind_ok decoded] at ran
    have stopped : (4 : Nat) = bytes.length := congrArg ByteDecoder.off (Result.ok.inj ran).2
    omega
  · exact absurd (show (0 : Int16) = 1 from same) (by decide)

theorem produce_misread (version : Int16) (either : version = 0 ∨ version = 1) :
    ∃ x : Exchange lower hash .produce version, ¬ x.InVersion := by
  rcases either with rfl | rfl
  · refine ⟨⟨nobody, blank, ⟨0, none, 0, 0, [⟨[], [⟨0, none⟩]⟩]⟩, _, _, _, _, _, _,
      rfl, rfl, rfl, rfl, rfl⟩, ?_⟩
    rintro ⟨-, ran⟩
    cases ran
  · refine ⟨⟨nobody, blank, ⟨1, none, 0, 0, [⟨[], [⟨0, none⟩]⟩]⟩, _, _, _, _, _, _,
      rfl, rfl, rfl, rfl, rfl⟩, ?_⟩
    rintro ⟨-, ran⟩
    cases ran

/-- Some exchange of a misread type and version is not read back although its lists are short. -/
theorem misread (offered : kind.Offered version) {r : kind.Body} (wrong : Misread kind version r) :
    ∃ x : Exchange lower hash kind version,
      Few lower x.outside x.broker kind x.request ∧ ¬ x.InVersion := by
  cases kind with
  | produce =>
    have bounds := offered_bounds 0 5 offered (by decide)
    obtain ⟨x, unread⟩ := produce_misread lower hash version (eq_zero_or_one bounds.1 wrong.1)
    exact ⟨x, trivial, unread⟩
  | joinGroup =>
    have bounds := offered_bounds 0 1 offered (by decide)
    obtain rfl := Int16.le_antisymm bounds.2 wrong
    exact joinGroup_misread lower hash
  | heartbeat =>
    have bounds := offered_bounds 0 1 offered (by decide)
    obtain rfl := Int16.le_antisymm bounds.2 wrong
    obtain ⟨x, unread⟩ := heartbeat_misread lower hash
    exact ⟨x, trivial, unread⟩
  | apiVersions =>
    have bounds := offered_bounds 0 1 offered (by decide)
    obtain ⟨x, unread⟩ := apiVersions_misread lower hash version
      (eq_zero_or_one bounds.1 bounds.2)
    exact ⟨x, trivial, unread⟩
  | createTopics =>
    have bounds := offered_bounds 0 1 offered (by decide)
    obtain rfl := Int16.le_antisymm bounds.2 wrong
    obtain ⟨x, unread⟩ := createTopics_misread lower hash
    exact ⟨x, trivial, unread⟩
  | _ => exact wrong.elim

end Misread

end Exchange

end Jocko.Broker
