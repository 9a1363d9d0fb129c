import Jocko.Broker.FailoverRun

namespace Jocko.Broker

open Go MemDB Fsm Cluster Option List

/-- `serf.MemberStatus`, and `StatusReap`. -/
inductive MemberStatus where
  | none
  | alive
  | leaving
  | left
  | failed
  | reap
  deriving DecidableEq

/-- A `serf.Member` with the rest of what the leader looks at. -/
structure Member extends SerfMember where
  name : Str
  status : MemberStatus

/-- A `raft.Server` -/
structure Server where
  id : Str
  address : Str
  deriving DecidableEq

/-- The raft leader as `reconcileMember` sees it: what it shares, its name and the members of the
ring, the configuration of raft, and the outcomes of the calls that read or change it. -/
structure Membership where
  cluster : Cluster
  nodeName : Str
  members : List Member
  servers : List Server
  outcomes : Nat → Option Err
  asked : Nat

/-- `NodeID.String` -/
def idString (id : Int32) : Str := ascii (String.ofList (sprintfd id.toInt))

def Member.bootstrap (m : Member) : Bool := (m.tags.get? (ascii "bootstrap")).isSome

def serfCheckAliveOutput : Str := ascii "Node alive and reachable"

/-- The node that is registered for a member that is alive. -/
def aliveNode (m : Member) (broker : MetaBroker) : Fsm.Node where
  id := 0
  node := broker.id
  address := broker.brokerAddr
  check := some ⟨idString broker.id, serfCheckID, serfCheckName, healthPassing, serfCheckAliveOutput⟩
  nodeMeta := some [(ascii "raft_addr", broker.raftAddr),
    (ascii "serf_lan_addr", m.tag "serf_lan_addr"), (ascii "name", m.tag "name")]
  createIndex := 0
  modifyIndex := 0

namespace Membership

variable {α : Type}

def inCluster (call : Call Cluster α) : Call Membership α :=
  zoom (fun s => s.cluster) (fun s cluster => { s with cluster }) call

/-- A future of raft. -/
def ask : Call Membership Unit := ⟨fun s =>
  let s' := { s with asked := s.asked + 1 }
  match s.outcomes s.asked with
  | some cause => .error (.err cause) s'
  | none => .ok () s'⟩

/-- `raft.GetConfiguration` -/
def getConfiguration : Call Membership (List Server) := do
  ask
  ⟨fun s => .ok s.servers s⟩

/-- `raft.RemoveServer` -/
def raftRemoveServer (id : Str) : Call Membership Unit := do
  ask
  ⟨fun s => .ok () { s with servers := s.servers.filter fun server => server.id ≠ id }⟩

/-- `raft.AddVoter` and `raft.AddNonvoter`, which differ in a suffrage that is not looked at. -/
def raftAddServer (id address : Str) : Call Membership Unit := do
  ask
  ⟨fun s => .ok () { s with
    servers := (s.servers.filter fun server => server.id ≠ id) ++ [⟨id, address⟩] }⟩

/-- Another member of the ring is in bootstrap mode. -/
def rivals (m : Member) : Call Membership Bool := ⟨fun s =>
  .ok (s.members.any fun member =>
    (isBroker member.toSerfMember).isSome && member.name ≠ m.name && member.bootstrap) s⟩

/-- The loop over the servers of `joinCluster`: whether it has met the very server that joins. -/
def removeDuplicates (parts : MetaBroker) : List Server → Call Membership Bool
  | [] => return false
  | server :: servers =>
    if server.address = parts.raftAddr ∨ server.id = idString parts.id then
      if server.address = parts.raftAddr ∧ server.id = idString parts.id then return true
      else do
        raftRemoveServer server.id
        removeDuplicates parts servers
    else removeDuplicates parts servers

def joinCluster (m : Member) (parts : MetaBroker) : Call Membership Unit := do
  let rival ← rivals m
  if m.bootstrap && rival then return ()
  else
    let servers ← getConfiguration
    let nodeName ← ⟨fun s => .ok s.nodeName s⟩
    if m.name = nodeName ∧ servers.length < 3 then return ()
    else if ← removeDuplicates parts servers then return ()
    else raftAddServer (idString parts.id) parts.raftAddr

/-- The loop over the servers of `removeServer`. -/
def removeServers (id : Str) : List Server → Call Membership Unit
  | [] => return ()
  | server :: servers =>
    if server.id ≠ id then removeServers id servers
    else do
      raftRemoveServer id
      removeServers id servers

def removeServer (broker : MetaBroker) : Call Membership Unit := do
  let servers ← getConfiguration
  removeServers (idString broker.id) servers

section

variable (lower : Str → Str)

/-- The metadata of a member that is no broker is nil. -/
def handleAliveMember (m : Member) : Call Membership Unit := do
  match isBroker m.toSerfMember with
  | none => stop (.panic "invalid memory address or nil pointer dereference")
  | some broker =>
    joinCluster m broker
    let s ← inCluster state
    match (s.getNode lower broker.id).2 with
    | some _ => return ()
    | none =>
      let _ ← inCluster (raftApply lower (.registerNode (aliveNode m broker)))

def handleDeregisterMember (m : Member) : Call Membership Unit := do
  match isBroker m.toSerfMember with
  | none => return ()
  | some broker =>
    if broker.id = (← inCluster configID) then return ()
    else
      removeServer broker
      let s ← inCluster state
      match (s.getNode lower broker.id).2 with
      | none => return ()
      | some _ =>
        let _ ← inCluster (raftApply lower (.deregisterNode ⟨0, broker.id, [], none, none, 0, 0⟩))

def handleMember (m : Member) : Call Membership Unit :=
  match m.status with
  | .alive => handleAliveMember lower m
  | .failed => inCluster (handleFailedMember lower m.toSerfMember)
  | .reap => handleDeregisterMember lower m
  | .left => handleDeregisterMember lower m
  | .none => return ()
  | .leaving => return ()

/-- `reconcileMember`, which logs an error and forgets it. -/
def reconcileMember (m : Member) : Call Membership Unit := do
  let _ ← attempt (handleMember lower m)

end

end Membership

/-- A step that leaves the nodes of a tidy store. -/
structure KeepsNodes (lower : Str → Str) (c c' : Cluster) : Prop where
  id : c'.id = c.id
  raft : c'.raft = c.raft
  nodes : c.fsm.Tidy lower → c'.fsm.Tidy lower ∧ c'.fsm.nodes = c.fsm.nodes

section

variable {lower : Str → Str}

instance : IsPreorder Cluster (KeepsNodes lower) where
  refl c := ⟨rfl, rfl, fun tidy => ⟨tidy, rfl⟩⟩
  trans := by
    rintro a b c first second
    refine ⟨second.id.trans first.id, second.raft.trans first.raft, fun tidy => ?_⟩
    obtain ⟨tidy', same⟩ := first.nodes tidy
    obtain ⟨tidy'', same'⟩ := second.nodes tidy'
    exact ⟨tidy'', same'.trans same⟩

theorem raftApply_keepsNodes {command : Command}
    (keeps : ∀ idx (s : Store), s.Tidy lower → (s.apply lower idx command).1.Tidy lower ∧
      (s.apply lower idx command).1.nodes = s.nodes) :
    (raftApply lower command).Moves (KeepsNodes lower) := by
  intro c
  cases next : c.raft c.applied with
  | error cause =>
    rw [raftApply_error next]
    exact ⟨rfl, rfl, fun tidy => ⟨tidy, rfl⟩⟩
  | ok idx =>
    rw [raftApply_ok next]
    exact ⟨rfl, rfl, fun tidy => keeps idx c.fsm tidy⟩

theorem registerGroup_keepsNodes (group : Fsm.Group) :
    (raftApply lower (.registerGroup group)).Moves (KeepsNodes lower) := by
  apply raftApply_keepsNodes
  intro idx s tidy
  obtain ⟨groups, index, written, tidy'⟩ := tidy.registerGroup idx group
  rw [written]
  exact ⟨tidy', rfl⟩

theorem registerPartition_keepsNodes (p : Fsm.Partition) :
    (raftApply lower (.registerPartition p)).Moves (KeepsNodes lower) := by
  apply raftApply_keepsNodes
  intro idx s tidy
  by_cases unnamed : p.topic = []
  · rw [Store.Tidy.registerPartition_unnamed s idx unnamed]
    exact ⟨tidy, rfl⟩
  · obtain ⟨partitions, index, create, written, tidy', -⟩ := tidy.registerPartition idx unnamed
    rw [written]
    exact ⟨tidy', rfl⟩

theorem intn_keepsNodes (n : Nat) : (intn n).Moves (KeepsNodes lower) := by
  intro c
  unfold intn
  dsimp only
  split <;> exact ⟨rfl, rfl, fun tidy => ⟨tidy, rfl⟩⟩

theorem edit_keepsNodes (group : GroupRef) (f : Fsm.Group → Fsm.Group) :
    (group.edit f).Moves (KeepsNodes lower) := by
  intro c
  unfold GroupRef.edit
  dsimp only
  split
  · exact ⟨rfl, rfl, fun tidy => ⟨⟨tidy.index, tidy.nodes, tidy.topics, tidy.partitions⟩, rfl⟩⟩
  · exact ⟨rfl, rfl, fun tidy => ⟨tidy, rfl⟩⟩

/-- What follows the registration of a failed node leaves the nodes alone. -/
theorem reassign_keepsNodes (failed : Int32) :
    (reassign lower failed).Moves (KeepsNodes lower) := by
  refine .bind (.of_unchanged fun _ => rfl) fun s => ?_
  refine .bind (.lift _) fun passing => ?_
  refine .bind (reassignGroups_moves intn_keepsNodes (fun _ => edit_keepsNodes _)
    registerGroup_keepsNodes passing _) fun _ => ?_
  refine .bind (reassignPartitions_moves intn_keepsNodes registerPartition_keepsNodes failed
    passing _) fun states => ?_
  refine .bind (.of_unchanged fun _ => rfl) fun id => fun c => ?_
  obtain ⟨dialled, told, same, -⟩ := tellBrokers_tells ⟨0, id, 0, states, []⟩ passing c
  rw [same]
  exact ⟨rfl, rfl, fun tidy => ⟨⟨tidy.index, tidy.nodes, tidy.topics, tidy.partitions⟩, rfl⟩⟩

end

namespace Membership

/-- Every call to raft's configuration succeeds. -/
def Sure (s : Membership) : Prop := ∀ i, s.outcomes i = none

/-- What the handlers need of the leader, and leave. -/
structure Ready (lower : Str → Str) (s : Membership) : Prop where
  sure : s.Sure
  reliable : Reliable s.cluster
  tidy : s.cluster.fsm.Tidy lower

/-- The row of a node. -/
def node (s : Membership) (id : Int32) : Option Fsm.Node := nodeKind.row? s.cluster.fsm (intKey id)

variable {α : Type} {lower : Str → Str} {s : Membership}

/-- The call changes the configuration of raft at most, and fails only if raft does. -/
def Settles (call : Call Membership α) : Prop := ∀ s, ∃ servers asked,
  (∃ value, call.run s = .ok value { s with servers, asked }) ∨
  ∃ i cause, s.outcomes i = some cause ∧
    call.run s = .error (.err cause) { s with servers, asked }

namespace Settles

variable {call : Call Membership α}

theorem of_same (same : ∀ s, ∃ value, call.run s = .ok value s) : Settles call :=
  fun s => ⟨s.servers, s.asked, .inl (same s)⟩

theorem pure (value : α) : Settles (Pure.pure value) := .of_same fun _ => ⟨value, rfl⟩

theorem bind {β : Type} {next : α → Call Membership β} (first : Settles call)
    (rest : ∀ value, Settles (next value)) : Settles (call >>= next) := by
  intro s
  obtain ⟨servers, asked, ⟨value, ok⟩ | ⟨i, cause, here, failed⟩⟩ := first s
  · rw [bind_ok ok]
    exact rest value { s with servers, asked }
  · exact ⟨servers, asked, .inr ⟨i, cause, here, bind_error failed⟩⟩

theorem sure (settles : Settles call) (sure : s.Sure) :
    ∃ value servers asked, call.run s = .ok value { s with servers, asked } := by
  obtain ⟨servers, asked, ⟨value, ok⟩ | ⟨i, cause, here, -⟩⟩ := settles s
  · exact ⟨value, servers, asked, ok⟩
  · rw [sure i] at here
    cases here

theorem returns (settles : Settles call) : call.Returns := by
  intro s
  obtain ⟨servers, asked, ⟨value, ok⟩ | ⟨i, cause, -, failed⟩⟩ := settles s
  · rw [ok]
    trivial
  · rw [failed]
    trivial

end Settles

theorem ask_settles : Settles ask := by
  intro s
  refine ⟨s.servers, s.asked + 1, ?_⟩
  cases next : s.outcomes s.asked with
  | none => exact .inl ⟨(), by simp only [ask, next]⟩
  | some cause => exact .inr ⟨_, cause, next, by simp only [ask, next]⟩

theorem getConfiguration_settles : Settles getConfiguration :=
  .bind ask_settles fun _ => .of_same fun _ => ⟨_, rfl⟩

theorem raftRemoveServer_settles (id : Str) : Settles (raftRemoveServer id) :=
  .bind ask_settles fun _ s => ⟨_, s.asked, .inl ⟨(), rfl⟩⟩

theorem removeDuplicates_settles (parts : MetaBroker) (servers : List Server) :
    Settles (removeDuplicates parts servers) := by
  induction servers with
  | nil => exact .pure _
  | cons server servers ih =>
    unfold removeDuplicates
    split
    · split
      · exact .pure _
      · exact .bind (raftRemoveServer_settles _) fun _ => ih
    · exact ih

theorem joinCluster_settles (m : Member) (parts : MetaBroker) : Settles (joinCluster m parts) := by
  refine .bind (.of_same fun _ => ⟨_, rfl⟩) fun rival => ?_
  split
  · exact .pure _
  · refine .bind getConfiguration_settles fun servers => ?_
    refine .bind (.of_same fun _ => ⟨_, rfl⟩) fun name => ?_
    split
    · exact .pure _
    · refine .bind (removeDuplicates_settles parts servers) fun known => ?_
      split
      · exact .pure _
      · exact .bind ask_settles fun _ s => ⟨_, s.asked, .inl ⟨(), rfl⟩⟩

theorem removeServer_settles (broker : MetaBroker) : Settles (removeServer broker) := by
  refine .bind getConfiguration_settles fun servers => ?_
  induction servers with
  | nil => exact .pure _
  | cons server servers ih =>
    unfold removeServers
    split
    · exact ih
    · exact .bind (raftRemoveServer_settles _) fun _ => ih

/-- The leader is as ready as before and has the same name. -/
def StaysReady (lower : Str → Str) (s s' : Membership) : Prop :=
  s'.Ready lower ∧ s'.cluster.id = s.cluster.id

variable {m : Member} {broker : MetaBroker}

section

variable (member : isBroker m.toSerfMember = some broker)
include member

/-- A member that is alive is registered if it has no row. -/
theorem handleAliveMember_row (ready : s.Ready lower) :
    ∃ s' create modify, (handleAliveMember lower m).run s = .ok () s' ∧
      StaysReady lower s s' ∧
      s'.node broker.id = (s.node broker.id).or (some { aliveNode m broker with
        createIndex := create
        modifyIndex := modify }) := by
  obtain ⟨_, servers, asked, joined⟩ := (joinCluster_settles m broker).sure ready.sure
  have read : (inCluster state).run { s with servers, asked } =
      .ok s.cluster.fsm { s with servers, asked } := rfl
  unfold handleAliveMember
  rw [member]
  dsimp only
  rw [bind_ok joined, bind_ok read]
  cases found : (s.cluster.fsm.getNode lower broker.id).2 with
  | some row =>
    have present : s.node broker.id = some row.val := congrArg (Option.map Obj.val) found
    exact ⟨_, 0, 0, rfl, ⟨⟨ready.sure, ready.reliable, ready.tidy⟩, rfl⟩,
      present.trans (by rw [present]; rfl)⟩
  | none =>
    have absent : s.node broker.id = none := congrArg (Option.map Obj.val) found
    obtain ⟨idx, applied⟩ := raftApply_reliable lower ready.reliable
      (.registerNode (aliveNode m broker))
    obtain ⟨nodes, index, create, written, tidy, byKey⟩ :=
      ready.tidy.registerNode idx (aliveNode m broker)
    have zoomed : (inCluster (raftApply lower (.registerNode (aliveNode m broker)))).run
        { s with servers, asked } = .ok _ _ := zoom_ok applied
    dsimp only
    rw [bind_ok zoomed]
    refine ⟨_, create, idx, rfl, ⟨⟨ready.sure, ready.reliable, ?_⟩, rfl⟩, ?_⟩
    · simp only [written]
      exact tidy
    · rw [absent, none_or]
      simp only [node, written]
      exact (byKey (intKey broker.id)).trans (if_pos rfl)

/-- The row of a member that failed is replaced, however the reassignments end. -/
theorem handleFailedMember_row (ready : s.Ready lower) :
    let s' := ((inCluster (handleFailedMember lower m.toSerfMember)).run s).state
    StaysReady lower s s' ∧ ∃ create modify, s'.node broker.id =
      some { criticalNode m.toSerfMember broker with
        createIndex := create
        modifyIndex := modify } := by
  obtain ⟨cause, refused, -⟩ | ⟨idx, nodes, index, create, -, goes, tidy, row, -⟩ :=
    handleFailedMember_cases member ready.tidy
  · obtain ⟨idx, commits⟩ := ready.reliable s.cluster.applied
    rw [refused] at commits
    cases commits
  have keeps := @reassign_keepsNodes lower broker.id (s.cluster.marked
    (idx, .registerNode (criticalNode m.toSerfMember broker)) nodes index)
  rw [← goes] at keeps
  obtain ⟨tidy', same⟩ := keeps.nodes tidy
  intro s'
  have after : s' = { s with
      cluster := ((handleFailedMember lower m.toSerfMember).run s.cluster).state } :=
    zoom_state _ _ _ s
  rw [after]
  have reliable : Reliable ((handleFailedMember lower m.toSerfMember).run s.cluster).state := by
    intro i
    rw [keeps.raft]
    exact ready.reliable i
  refine ⟨⟨⟨ready.sure, reliable, tidy'⟩, keeps.id⟩, create, idx, ?_⟩
  unfold Membership.node Kind.row? Kind.first
  change (Radix.get? ((handleFailedMember lower m.toSerfMember).run s.cluster).state.fsm.nodes.rows.id
    (intKey broker.id)).map Obj.val = _
  rw [same]
  exact row

theorem handleDeregisterMember_row (other : broker.id ≠ s.cluster.id)
    (ready : s.Ready lower) :
    ∃ s', (handleDeregisterMember lower m).run s = .ok () s' ∧ StaysReady lower s s' ∧
      s'.node broker.id = none := by
  obtain ⟨_, servers, asked, removed⟩ := (removeServer_settles broker).sure ready.sure
  have named : (inCluster configID).run s = .ok s.cluster.id s := rfl
  have read : (inCluster state).run { s with servers, asked } =
      .ok s.cluster.fsm { s with servers, asked } := rfl
  unfold handleDeregisterMember
  rw [member]
  dsimp only
  rw [bind_ok named, if_neg other, bind_ok removed, bind_ok read]
  cases found : (s.cluster.fsm.getNode lower broker.id).2 with
  | none =>
    have absent : s.node broker.id = none := congrArg (Option.map Obj.val) found
    exact ⟨_, rfl, ⟨⟨ready.sure, ready.reliable, ready.tidy⟩, rfl⟩, absent⟩
  | some row =>
    have present : s.node broker.id = some row.val := congrArg (Option.map Obj.val) found
    obtain ⟨idx, applied⟩ := raftApply_reliable lower ready.reliable
      (.deregisterNode ⟨0, broker.id, [], none, none, 0, 0⟩)
    obtain ⟨nodes, index, written, tidy, byKey⟩ := @Store.Tidy.deregisterNode _ _ ready.tidy idx
      ⟨0, broker.id, [], none, none, 0, 0⟩ row.val present
    have zoomed : (inCluster (raftApply lower
        (.deregisterNode ⟨0, broker.id, [], none, none, 0, 0⟩))).run { s with servers, asked } =
          .ok _ _ := zoom_ok applied
    dsimp only
    rw [bind_ok zoomed]
    refine ⟨_, rfl, ⟨⟨ready.sure, ready.reliable, ?_⟩, rfl⟩, ?_⟩
    · simp only [written]
      exact tidy
    · simp only [Membership.node, written]
      exact (byKey (intKey broker.id)).trans (if_pos rfl)

end

/-- The status of a node's check. -/
def health (row : Fsm.Node) : Option Str := row.check.map HealthCheck.status

/-- What the row of a member should be after an event, given what it was. -/
def Reported (m : Member) (before after : Option Fsm.Node) : Prop :=
  match m.status with
  | .alive => ∃ row, after = some row ∧ health row = some healthPassing ∧
      row.address = m.tag "broker_addr"
  | .failed => ∃ row, after = some row ∧ health row = some healthCritical ∧
      ∀ old, before = some old → row.address = old.address ∧ row.nodeMeta = old.nodeMeta
  | .left => after = none
  | .reap => after = none
  | .none => True
  | .leaving => True

/-- The row that an event meets: a member that is alive has none, or one that says so already,
and one that failed has none, or one without an address and metadata. -/
def Suits (m : Member) (before : Option Fsm.Node) : Prop :=
  match m.status with
  | .alive => ∀ old, before = some old → health old = some healthPassing ∧
      old.address = m.tag "broker_addr"
  | .failed => ∀ old, before = some old → old.address = [] ∧ old.nodeMeta = none
  | _ => True

section

variable (lower : Str → Str)

/-- Every event of a sequence meets a row with a property, and leaves one. -/
def Throughout (P : Member → Option Fsm.Node → Option Fsm.Node → Prop) :
    List Member → Membership → Prop
  | [], _ => True
  | m :: ms, s =>
    (∀ broker, isBroker m.toSerfMember = some broker →
      P m (s.node broker.id) (((reconcileMember lower m).run s).state.node broker.id)) ∧
    ∀ s', (reconcileMember lower m).run s = .ok () s' → Throughout P ms s'

end

theorem isBroker_brokerAddr {m : SerfMember}
    (member : isBroker m = some broker) : broker.brokerAddr = m.tag "broker_addr" := by
  unfold isBroker at member
  split at member
  · cases member
  · dsimp only at member
    split at member
    · cases member
      rfl
    · cases member

theorem reconcileMember_state (lower : Str → Str) (m : Member) (s : Membership) :
    ((reconcileMember lower m).run s).state = ((handleMember lower m).run s).state := by
  rw [reconcileMember, bind_state fun _ _ => rfl, attempt_state]

/-- One event: the row is as it should be if and only if the event met a row that suits it. -/
theorem reconcileMember_reported_iff
    (member : isBroker m.toSerfMember = some broker) (other : broker.id ≠ s.cluster.id)
    (ready : s.Ready lower) :
    let s' := ((reconcileMember lower m).run s).state
    StaysReady lower s s' ∧
      (Reported m (s.node broker.id) (s'.node broker.id) ↔ Suits m (s.node broker.id)) := by
  intro s'
  have after : s' = ((handleMember lower m).run s).state := reconcileMember_state lower m s
  rw [after]
  unfold handleMember Reported Suits
  cases m.status with
  | none => exact ⟨⟨ready, rfl⟩, Iff.rfl⟩
  | leaving => exact ⟨⟨ready, rfl⟩, Iff.rfl⟩
  | left =>
    obtain ⟨t, ran, stays, row⟩ := handleDeregisterMember_row member other ready
    dsimp only
    rw [ran]
    exact ⟨stays, iff_of_true row trivial⟩
  | reap =>
    obtain ⟨t, ran, stays, row⟩ := handleDeregisterMember_row member other ready
    dsimp only
    rw [ran]
    exact ⟨stays, iff_of_true row trivial⟩
  | failed =>
    obtain ⟨stays, create, modify, row⟩ := handleFailedMember_row member ready
    dsimp only
    refine ⟨stays, ?_⟩
    rw [row]
    constructor
    · rintro ⟨_, ⟨⟩, -, kept⟩ old here
      exact ⟨(kept old here).1.symm, (kept old here).2.symm⟩
    · intro blank
      refine ⟨_, rfl, rfl, fun old here => ?_⟩
      exact ⟨(blank old here).1.symm, (blank old here).2.symm⟩
  | alive =>
    obtain ⟨t, create, modify, ran, stays, row⟩ := handleAliveMember_row member ready
    dsimp only
    rw [ran]
    refine ⟨stays, ?_⟩
    change (∃ row, t.node broker.id = some row ∧ health row = some healthPassing ∧
      row.address = m.tag "broker_addr") ↔ _
    rw [row]
    cases s.node broker.id with
    | none =>
      refine iff_of_true ⟨_, rfl, rfl, ?_⟩ nofun
      exact isBroker_brokerAddr member
    | some old =>
      constructor
      · rintro ⟨_, ⟨⟩, passing, address⟩ _ ⟨⟩
        exact ⟨passing, address⟩
      · intro suits
        exact ⟨old, rfl, suits old rfl⟩

/-- A sequence of events about other brokers. -/
theorem events_reported_iff (ms : List Member) (ready : s.Ready lower)
    (others : ∀ m ∈ ms, ∃ broker, isBroker m.toSerfMember = some broker ∧ broker.id ≠ s.cluster.id) :
    Throughout lower Reported ms s ↔ Throughout lower (fun m before _ => Suits m before) ms s := by
  induction ms generalizing s with
  | nil => exact Iff.rfl
  | cons m ms ih =>
    obtain ⟨broker, member, other⟩ := others m (mem_cons_self ..)
    obtain ⟨stays, reported⟩ := reconcileMember_reported_iff member other ready
    have only (P : Member → Option Fsm.Node → Option Fsm.Node → Prop) :
        (∀ broker', isBroker m.toSerfMember = some broker' → P m (s.node broker'.id)
          (((reconcileMember lower m).run s).state.node broker'.id)) ↔
        P m (s.node broker.id) (((reconcileMember lower m).run s).state.node broker.id) := by
      constructor
      · exact fun all => all broker member
      · intro holds broker' member'
        obtain rfl := some.inj (member.symm.trans member')
        exact holds
    unfold Throughout
    refine and_congr ((only Reported).trans (reported.trans (only fun m before _ =>
      Suits m before).symm)) (forall_congr' fun s' => forall_congr' fun ran => ?_)
    rw [ran] at stays
    refine ih stays.1 fun m' inside => ?_
    obtain ⟨broker', member', other'⟩ := others m' (mem_cons_of_mem _ inside)
    refine ⟨broker', member', ?_⟩
    have same : s'.cluster.id = s.cluster.id := stays.2
    rw [same]
    exact other'

/-- A broker with the number 2 in the ring. -/
def second (status : MemberStatus) : Member where
  tags := some [(ascii "role", ascii "jocko"), (ascii "id", ascii "2"),
    (ascii "raft_addr", ascii "r2"), (ascii "broker_addr", ascii "b2")]
  name := ascii "two"
  status

/-- The leader, alone. -/
def leading : Membership where
  cluster := lone Store.new fun i => .ok (UInt64.ofNat (i + 1))
  nodeName := ascii "one"
  members := []
  servers := [⟨ascii "1", ascii "r1"⟩]
  outcomes := fun _ => none
  asked := 0

theorem leading_ready : leading.Ready id :=
  ⟨fun _ => rfl, fun _ => ⟨_, rfl⟩, Store.Clean.new.tidy⟩

/-- A broker that comes, leaves and comes back. -/
theorem events_reported_rejoin :
    Throughout id Reported [second .alive, second .left, second .alive] leading := by
  have member (status : MemberStatus) :
      isBroker (second status).toSerfMember = some ⟨2, ascii "r2", ascii "b2"⟩ := by
    cases status <;> decide +kernel
  have rows : leading.node 2 = none ∧ ((reconcileMember id (second .left)).run
      ((reconcileMember id (second .alive)).run leading).state).state.node 2 =
        none := by
    decide +kernel
  have others : ∀ m ∈ [second .alive, second .left, second .alive], ∃ broker,
      isBroker m.toSerfMember = some broker ∧ broker.id ≠ leading.cluster.id := by
    intro m inside
    simp only [mem_cons, not_mem_nil, or_false] at inside
    rcases inside with rfl | rfl | rfl <;> exact ⟨_, member _, by decide⟩
  refine (events_reported_iff _ leading_ready others).mpr ⟨fun broker found => ?_,
    fun s₁ first => ⟨fun _ _ => trivial, fun s₂ then_ => ⟨fun broker found => ?_,
      fun _ _ => trivial⟩⟩⟩
  · obtain rfl := some.inj ((member _).symm.trans found)
    rw [rows.1]
    nofun
  · obtain rfl := some.inj ((member _).symm.trans found)
    rw [first] at rows
    have absent : s₂.node 2 = none := by
      have left := rows.2
      rw [show (Result.ok () s₁).state = s₁ from rfl, then_] at left
      exact left
    rw [absent]
    nofun

/-- A broker that fails and comes back stays critical, and has lost its address. -/
theorem recovered_node_critical :
    let after := fun (s : Membership) (status : MemberStatus) =>
      ((reconcileMember id (second status)).run s).state
    let row := fun (s : Membership) => (s.node 2).map fun row => (health row, row.address)
    row (after leading .alive) = some (some healthPassing, ascii "b2") ∧
      row (after (after leading .alive) .failed) = some (some healthCritical, []) ∧
      row (after (after (after leading .alive) .failed) .alive) = some (some healthCritical, []) := by
  decide +kernel

/-- The server of a broker that joins. -/
def joining (parts : MetaBroker) : Server := ⟨idString parts.id, parts.raftAddr⟩

/-- A server with the id or the address of a broker that joins. -/
def clashes (parts : MetaBroker) (server : Server) : Bool :=
  server.address = parts.raftAddr ∨ server.id = idString parts.id

variable {parts : MetaBroker} {servers : List Server}

theorem removeDuplicates_known (known : joining parts ∈ servers)
    (only : ∀ server ∈ servers, clashes parts server = true → server = joining parts) :
    (removeDuplicates parts servers).run s = .ok true s := by
  induction servers with
  | nil => cases known
  | cons server servers ih =>
    unfold removeDuplicates
    split
    · rename_i clash
      obtain rfl := only _ (mem_cons_self ..) (decide_eq_true clash)
      rw [if_pos ⟨rfl, rfl⟩]
      rfl
    · rename_i apart
      refine ih ?_ fun u inside => only u (mem_cons_of_mem _ inside)
      rcases mem_cons.mp known with rfl | later
      · exact absurd (.inl rfl) apart
      · exact later

theorem ask_sure (sure : s.Sure) : ask.run s = .ok () { s with asked := s.asked + 1 } := by
  simp only [ask, sure s.asked]

/-- The live configuration loses the servers of the snapshot that clash. -/
theorem removeDuplicates_unknown (unknown : joining parts ∉ servers) (sure : s.Sure) :
    ∃ asked, (removeDuplicates parts servers).run s = .ok false { s with
      servers := s.servers.filter fun t => servers.all fun u => clashes parts u → t.id ≠ u.id
      asked } := by
  induction servers generalizing s with
  | nil => exact ⟨s.asked, by simp [removeDuplicates]⟩
  | cons server servers ih =>
    have later := not_mem_of_not_mem_cons unknown
    unfold removeDuplicates
    split
    · rename_i clash
      have other : ¬ (server.address = parts.raftAddr ∧ server.id = idString parts.id) := by
        rintro ⟨address, id⟩
        exact unknown (by simp [joining, ← address, ← id])
      have clash : clashes parts server = true := decide_eq_true clash
      have removed : (raftRemoveServer server.id).run s = _ := bind_ok (ask_sure sure)
      obtain ⟨asked, rest⟩ := @ih { s with
        servers := s.servers.filter fun t => t.id ≠ server.id
        asked := s.asked + 1 } later sure
      refine ⟨asked, ?_⟩
      rw [if_neg other, bind_ok removed, rest]
      simp [clash, List.filter_filter, Bool.and_comm]
    · rename_i apart
      have apart : clashes parts server = false := decide_eq_false apart
      obtain ⟨asked, rest⟩ := ih later sure
      exact ⟨asked, by rw [rest]; simp [apart]⟩

/-- Distinct ids: only the servers that clash are lost. -/
theorem filter_unclashing (ids : (servers.map Server.id).Nodup) :
    (servers.filter fun t => servers.all fun u => clashes parts u → t.id ≠ u.id) =
      servers.filter fun t => !clashes parts t := by
  refine filter_congr fun t inside => ?_
  rw [Bool.eq_iff_iff]
  simp only [List.all_eq_true, decide_eq_true_eq, Bool.not_eq_true']
  constructor
  · intro apart
    by_contra clash
    exact apart t inside (by simpa using clash) rfl
  · intro apart u inside' clash same
    rw [inj_on_of_nodup_map ids inside inside' same, clash] at apart
    cases apart

theorem count_concat (f : Server → Str) (server : Server)
    (others : ∀ t ∈ servers, f t ≠ f server) :
    ((servers ++ [server]).map f).count (f server) = 1 := by
  rw [map_append, count_append, count_eq_zero.mpr]
  · simp
  · intro inside
    obtain ⟨t, inside, same⟩ := mem_map.mp inside
    exact others t inside same

/-- Joining in a configuration with distinct ids and addresses. -/
theorem joinCluster_configures {rival : Bool} (sure : s.Sure)
    (ids : (s.servers.map Server.id).Nodup) (addresses : (s.servers.map Server.address).Nodup)
    (read : (rivals m).run s = .ok rival s) (single : (m.bootstrap && rival) = false)
    (large : ¬ (m.name = s.nodeName ∧ s.servers.length < 3)) :
    ∃ s', (joinCluster m parts).run s = .ok () s' ∧
      (s'.servers.map Server.id).count (idString parts.id) = 1 ∧
      (s'.servers.map Server.address).count parts.raftAddr = 1 ∧ joining parts ∈ s'.servers ∧
      s'.servers.filter (!clashes parts ·) = s.servers.filter (!clashes parts ·) ∧
      (joining parts ∈ s.servers → s'.servers = s.servers) := by
  have configured : getConfiguration.run s = .ok s.servers { s with asked := s.asked + 1 } :=
    bind_ok (ask_sure sure)
  have goes : (joinCluster m parts).run s = (do
      if ← removeDuplicates parts s.servers then return ()
      else raftAddServer (idString parts.id) parts.raftAddr).run
        { s with asked := s.asked + 1 } := by
    unfold joinCluster
    rw [bind_ok read, single]
    simp only [Bool.false_eq_true, ↓reduceIte]
    rw [bind_ok configured]
    exact (bind_ok rfl).trans (by rw [if_neg large])
  rw [goes]
  by_cases known : joining parts ∈ s.servers
  · have only : ∀ server ∈ s.servers, clashes parts server = true → server = joining parts := by
      intro server inside clash
      rcases of_decide_eq_true clash with address | id
      · exact inj_on_of_nodup_map addresses inside known address
      · exact inj_on_of_nodup_map ids inside known id
    rw [bind_ok (removeDuplicates_known known only)]
    exact ⟨_, rfl, count_eq_one_of_mem ids (mem_map_of_mem known),
      count_eq_one_of_mem addresses (mem_map_of_mem known), known, rfl, fun _ => rfl⟩
  · obtain ⟨asked, removed⟩ := removeDuplicates_unknown known
      (s := { s with asked := s.asked + 1 }) sure
    rw [bind_ok removed]
    have others : ∀ t ∈ s.servers.filter (fun t => !clashes parts t),
        t.address ≠ parts.raftAddr ∧ t.id ≠ idString parts.id := by
      intro t inside
      simpa [clashes] using (mem_filter.mp inside).2
    refine ⟨_, bind_ok (ask_sure sure), ?_⟩
    dsimp only
    rw [filter_unclashing ids,
      filter_eq_self.mpr fun t inside => decide_eq_true (others t inside).2]
    exact ⟨count_concat Server.id (joining parts) fun t inside => (others t inside).2,
      count_concat Server.address (joining parts) fun t inside => (others t inside).1,
      by simp [joining], by simp [clashes], fun here => absurd here known⟩

/-- Broker 2 has moved to the address of another server. -/
def moved : Membership := { leading with
  servers := [⟨ascii "1", ascii "r1"⟩, ⟨ascii "2", ascii "r9"⟩, ⟨ascii "9", ascii "r2"⟩] }

/-- A broker with the id of one server and the address of another. -/
theorem joinCluster_configures_moved : ∃ s',
    (joinCluster (second .alive) ⟨2, ascii "r2", ascii "b2"⟩).run moved = .ok () s' ∧
      (s'.servers.map Server.id).count (ascii "2") = 1 ∧
      s'.servers.filter (fun t => !clashes ⟨2, ascii "r2", ascii "b2"⟩ t) =
        [⟨ascii "1", ascii "r1"⟩] := by
  obtain ⟨s', joined, id, -, -, kept, -⟩ := @joinCluster_configures moved (second .alive)
    ⟨2, ascii "r2", ascii "b2"⟩ false (fun _ => rfl) (by decide) (by decide) rfl rfl (by decide)
  exact ⟨s', joined, id, kept⟩

end Membership

end Jocko.Broker
