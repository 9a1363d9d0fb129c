import Jocko.Broker.Cluster

namespace Jocko.Broker

open Go MemDB Fsm Protocol Cluster

/-- A `*structs.Group`: a row of the store, or a group that the handler has made. -/
structure GroupRef where
  addr : Option Nat
  val : Fsm.Group

/-- What a write to a row of the group table leaves. -/
def Cluster.editGroup (c : Cluster) (addr : Nat) (f : Fsm.Group → Fsm.Group) : Cluster :=
  { c with fsm := { c.fsm with groups := c.fsm.groups.edit addr f } }

/-- Write through the pointer. A row of the store changes in place. -/
def GroupRef.edit (group : GroupRef) (f : Fsm.Group → Fsm.Group) : Call Cluster GroupRef := ⟨fun c =>
  let held := { group with val := f group.val }
  match group.addr with
  | some addr => .ok held (c.editGroup addr f)
  | none => .ok held c⟩

section

variable (lower : Str → Str)

def getGroup (id : Str) : Call Cluster (Option GroupRef) := do
  let s ← state
  return (s.getGroup lower id).2.map fun row => ⟨some row.addr, row.val⟩

/-- The group that `handleJoinGroup` makes if there is none. -/
def newGroup (id : Str) (coordinator : Int32) : GroupRef :=
  ⟨none, ⟨[], id, coordinator, [], GoMap.make, .preparingRebalance, 0, 0, 0⟩⟩

/-- A client without a member id becomes a member. -/
def joinMember (clientID uuid memberID : Str) (group : GroupRef) : Call Cluster (Str × GroupRef) :=
  if memberID = [] then
    let memberID := clientID ++ ascii "-" ++ uuid
    match group.val.members.set memberID ⟨memberID, none, none⟩ with
    | none => stop (.panic "assignment to entry in nil map")
    | some members => do
      let group ← group.edit fun g => { g with members }
      return (memberID, group)
  else return (memberID, group)

def joinLeader (memberID : Str) (group : GroupRef) : Call Cluster GroupRef :=
  if group.val.leaderID = [] then group.edit fun g => { g with leaderID := memberID }
  else return group

/-- Register the group and answer; only the leader gets the members. -/
def registerJoined (r : JoinGroupRequest) (memberID : Str) (group : GroupRef) :
    Call Cluster JoinGroupResponse := do
  let res : JoinGroupResponse := ⟨r.apiVersion, 0, 0, 0, [], [], [], []⟩
  match ← attempt (raftApply lower (.registerGroup group.val)) with
  | .error _ => return { res with errorCode := ErrorCode.unknown.code }
  | .ok _ =>
    let members := if group.val.leaderID = memberID then
        group.val.members.entries.map fun m => ⟨m.2.id, m.2.metadata⟩
      else []
    return { res with
      generationID := 0
      leaderID := group.val.leaderID
      memberID
      members }

def joinGroup (clientID uuid : Str) (r : JoinGroupRequest) (group : GroupRef) :
    Call Cluster JoinGroupResponse := do
  let (memberID, group) ← joinMember clientID uuid r.memberID group
  let group ← joinLeader memberID group
  registerJoined lower r memberID group

/-- `handleJoinGroup`, for a client with the given id; `uuid` is what `uuid.NewV1` returns. -/
def handleJoinGroup (clientID uuid : Str) (r : JoinGroupRequest) :
    Call Cluster JoinGroupResponse := do
  let found ← getGroup lower r.groupID
  joinGroup lower clientID uuid r (found.getD (newGroup r.groupID (← configID)))

def handleLeaveGroup (r : LeaveGroupRequest) : Call Cluster LeaveGroupResponse := do
  let res : LeaveGroupResponse := ⟨r.apiVersion, 0, 0⟩
  match ← getGroup lower r.groupID with
  | none => return { res with errorCode := ErrorCode.invalidGroupId.code }
  | some group =>
    if group.val.members.get? r.memberID = none then
      return { res with errorCode := ErrorCode.unknownMemberId.code }
    else
      let group ← group.edit fun g => { g with members := g.members.delete r.memberID }
      match ← attempt (raftApply lower (.registerGroup group.val)) with
      | .error _ => return { res with errorCode := ErrorCode.unknown.code }
      | .ok _ => return res

/-- What `handleSyncGroup` does once the state of the group lets it: the leader's assignments
are looked at, and the group is registered as it is. -/
def syncAssignments (r : SyncGroupRequest) (res : SyncGroupResponse) (group : GroupRef) :
    Call Cluster SyncGroupResponse := do
  if group.val.leaderID = r.memberID then
    if r.groupAssignments.any fun ga => (group.val.members.get? ga.memberID).isNone then
      stop (.panic "sync group: unknown member")
    else
      match ← attempt (raftApply lower (.registerGroup group.val)) with
      | .error _ => return { res with errorCode := ErrorCode.unknown.code }
      | .ok _ => return res
  else
    match group.val.members.get? r.memberID with
    | some m => return { res with memberAssignment := m.assignment }
    | none => stop (.panic "sync group: unknown member")

def handleSyncGroup (r : SyncGroupRequest) : Call Cluster SyncGroupResponse := do
  let res : SyncGroupResponse := ⟨r.apiVersion, 0, 0, none⟩
  match ← getGroup lower r.groupID with
  | none => return { res with errorCode := ErrorCode.invalidGroupId.code }
  | some group =>
    if group.val.members.get? r.memberID = none then
      return { res with errorCode := ErrorCode.unknownMemberId.code }
    else if r.generationID ≠ group.val.generationID then
      return { res with errorCode := ErrorCode.illegalGeneration.code }
    else
      match group.val.state with
      | .empty | .dead => return { res with errorCode := ErrorCode.unknownMemberId.code }
      | .preparingRebalance => return { res with errorCode := ErrorCode.rebalanceInProgress.code }
      | .completingRebalance | .stable | .other _ => syncAssignments lower r res group

end

end Jocko.Broker
