import Jocko.Broker.TopicRun
import Jocko.Broker.Leaders

namespace Jocko.Broker

open Go MemDB Fsm Protocol Cluster List

/-- The state says of its partition what a registered row says. -/
def Matches (row : Fsm.Partition) (p : PartitionState) : Prop :=
  row.leader = p.leader ∧ row.isr = p.isr ∧ row.ar = p.replicas

/-- Every state of the request is for a partition that the entries register, and says what they
say. -/
def Agrees (entries : List (UInt64 × Command)) (req : LeaderAndISRRequest) : Prop :=
  ∀ p ∈ req.partitionStates,
    (∃ idx row, (idx, Command.registerPartition row) ∈ entries ∧
      row.topic = p.topic ∧ row.partition = p.partition) ∧
    ∀ idx row, (idx, Command.registerPartition row) ∈ entries →
      row.topic = p.topic → row.partition = p.partition → Matches row p

/-- A step that may write to raft, and tells nobody. -/
def Writes (c c' : Cluster) : Prop :=
  ∃ fsm applied drawn entries, c' =
    { c with fsm, applied, drawn, committed := c.committed ++ entries }

instance : IsPreorder Cluster Writes where
  refl c := ⟨c.fsm, c.applied, c.drawn, [], by rw [append_nil]⟩
  trans := by
    rintro a b c ⟨fsm, applied, drawn, entries, rfl⟩ ⟨fsm', applied', drawn', entries', rfl⟩
    exact ⟨fsm', applied', drawn', entries ++ entries', by rw [append_assoc]⟩

variable {lower : Str → Str} {c : Cluster}

theorem raftApply_writes (command : Command) : (raftApply lower command).Moves Writes := by
  intro c
  rcases raftApply_cases lower command c with ⟨idx, response, ok⟩ | ⟨cause, -, failed⟩
  · rw [ok]
    exact ⟨_, _, _, _, rfl⟩
  · rw [failed]
    exact ⟨_, _, _, _, rfl⟩

theorem intn_writes (n : Nat) : (intn n).Moves Writes := by
  intro c
  unfold intn
  dsimp only
  split <;> exact ⟨c.fsm, c.applied, _, [], by rw [append_nil]; rfl⟩

theorem reassignGroups_writes (passing : List Fsm.Node) (groups : List (Obj Fsm.Group)) :
    (reassignGroups lower passing groups).Moves Writes :=
  reassignGroups_moves intn_writes
    (fun _ _ c => ⟨_, c.applied, c.drawn, [], by rw [append_nil]; rfl⟩)
    (fun _ => raftApply_writes _) passing groups

theorem reassignPartitions_writes (failed : Int32) (passing : List Fsm.Node)
    (partitions : List Fsm.Partition) :
    (reassignPartitions lower failed passing partitions).Moves Writes :=
  reassignPartitions_moves intn_writes (fun _ => raftApply_writes _) failed passing partitions

variable {failed : Int32}

/-- Every partition has been registered with a node that passes as its leader. -/
theorem reassignPartitions_registers {passing : List Fsm.Node}
    {partitions : List Fsm.Partition} {c c' : Cluster} {states : List PartitionState}
    (returned : (reassignPartitions lower failed passing partitions).run c = .ok states c') :
    states = partitions.map reassignedState ∧
      ∃ entries, c'.committed = c.committed ++ entries ∧ ∀ p ∈ partitions, ∃ idx, ∃ node ∈ passing,
        (idx, Command.registerPartition (reassigned failed p node)) ∈ entries := by
  induction partitions generalizing c c' states with
  | nil =>
    cases returned
    exact ⟨rfl, [], by rw [append_nil], by simp⟩
  | cons p partitions ih =>
    unfold reassignPartitions at returned
    obtain ⟨node, c₁, picked, returned⟩ := bind_eq_ok returned
    obtain ⟨response, c₂, written, returned⟩ := bind_eq_ok returned
    obtain ⟨rest, c₃, made, returned⟩ := bind_eq_ok returned
    cases returned
    obtain ⟨rfl, entries, committed, each⟩ := ih made
    have passes : node ∈ passing := by
      unfold pickNode at picked
      obtain ⟨i, c₄, -, picked⟩ := bind_eq_ok picked
      cases found : passing[i]? with
      | none =>
        simp only [found] at picked
        cases picked
      | some chosen =>
        simp only [found] at picked
        cases picked
        exact mem_of_getElem? found
    obtain ⟨fsm, applied, drawn, first, rfl⟩ := (pickNode_moves intn_writes passing).of_ok picked
    rcases raftApply_cases lower (.registerPartition (reassigned failed p node)) _ with
      ⟨idx, response', ok⟩ | ⟨cause, -, failed⟩
    · rw [ok] at written
      cases written
      refine ⟨rfl, first ++ [(idx, .registerPartition (reassigned failed p node))] ++ entries, ?_,
        fun q inside => ?_⟩
      · rw [committed]
        simp only [Cluster.after, append_assoc]
      · rcases mem_cons.mp inside with rfl | later
        · exact ⟨idx, node, passes, by simp⟩
        · obtain ⟨idx', node', passes', registered⟩ := each q later
          exact ⟨idx', node', passes', mem_append_right _ registered⟩
    · rw [failed] at written
      cases written

/-- The request that `handleFailedMember` makes of the partitions that the failed broker led. -/
def failoverRequest (lower : Str → Str) (failed : Int32) (c : Cluster) : LeaderAndISRRequest :=
  ⟨0, c.id, 0, (led lower failed c.fsm).map reassignedState, []⟩

/-- What a broker that tells others of a failure has done before: all the partitions have been
registered with leaders that have not failed. -/
def Registered (lower : Str → Str) (failed : Int32) (c c' : Cluster) : Prop :=
  c'.sent = c.sent ∨ ∃ told entries, c'.sent = c.sent ++ told ∧
    (∀ e ∈ told, e.2 = failoverRequest lower failed c) ∧
    c'.committed = c.committed ++ entries ∧
    ∀ p ∈ led lower failed c.fsm, ∃ idx node, node.node ≠ failed ∧
      (idx, Command.registerPartition (reassigned failed p node)) ∈ entries

theorem reassignPartitions_registered {passing : List Fsm.Node} {c₁ : Cluster}
    (start : Writes c c₁) (away : ∀ n ∈ passing, n.node ≠ failed) :
    Registered lower failed c ((do
      let states ← reassignPartitions lower failed passing (led lower failed c.fsm)
      tellBrokers ⟨0, ← configID, 0, states, []⟩ passing : Call Cluster Unit).run c₁).state := by
  cases ends : (reassignPartitions lower failed passing (led lower failed c.fsm)).run c₁ with
  | error why c₂ =>
    obtain ⟨_, _, _, _, rfl⟩ := trans_of Writes start
      ((reassignPartitions_writes failed passing _).of_error ends)
    rw [bind_error ends]
    exact .inl rfl
  | ok states c₂ =>
    have named : configID.run c₂ = .ok c₂.id c₂ := rfl
    obtain ⟨rfl, entries, committed, each⟩ := reassignPartitions_registers ends
    obtain ⟨_, _, _, _, whole⟩ := trans_of Writes start
      ((reassignPartitions_writes failed passing _).of_ok ends)
    obtain ⟨_, _, _, first, rfl⟩ := start
    rw [bind_ok ends, bind_ok named]
    obtain ⟨dialled, told, same, all⟩ := tellBrokers_tells
      ⟨0, c₂.id, 0, (led lower failed c.fsm).map reassignedState, []⟩ passing c₂
    have id : c₂.id = c.id := by rw [whole]
    have sent : c₂.sent = c.sent := by rw [whole]
    refine .inr ⟨told, first ++ entries, by rw [same, sent], fun e inside => ?_, ?_,
      fun p inside => ?_⟩
    · rw [all e inside, id]
      rfl
    · rw [same, committed, append_assoc]
    · obtain ⟨idx, node, passes, registered⟩ := each p inside
      exact ⟨idx, node, away node passes, mem_append_right _ registered⟩

theorem reassign_registered {failed : Int32}
    (away : ∀ passing, passingNodes failed c.fsm.nodes.values = .ok passing →
      ∀ n ∈ passing, n.node ≠ failed) :
    Registered lower failed c ((reassign lower failed).run c).state := by
  cases found : passingNodes failed c.fsm.nodes.values with
  | error why =>
    rw [reassign_refused found]
    exact .inl rfl
  | ok passing =>
    rw [reassign_passing found]
    cases ends : (reassignGroups lower passing (coordinated lower failed c.fsm)).run c with
    | error why c₁ =>
      obtain ⟨_, _, _, _, rfl⟩ := (reassignGroups_writes passing _).of_error ends
      rw [bind_error ends]
      exact .inl rfl
    | ok _ c₁ =>
      rw [bind_ok ends]
      exact reassignPartitions_registered ((reassignGroups_writes passing _).of_ok ends)
        (away passing found)

/-- If a request is sent, all its partitions have been registered with other leaders. -/
theorem handleFailedMember_registered {m : SerfMember} {broker : MetaBroker}
    (member : isBroker m = some broker) (tidy : c.fsm.Tidy lower) :
    Registered lower broker.id c ((handleFailedMember lower m).run c).state := by
  obtain ⟨cause, -, failed⟩ | ⟨idx, nodes, index, create, -, goes, -, -, same⟩ :=
    handleFailedMember_cases member tidy
  · rw [failed]
    exact .inl rfl
  · rw [goes]
    have later := @reassign_registered lower
      (c.marked (idx, .registerNode (criticalNode m broker)) nodes index) broker.id
      fun passing found n passes => by
        have inside := passingNodes_subset (same.symm.trans found) passes
        simpa using (mem_filter.mp inside).2
    rcases later with quiet | ⟨told, entries, sent, all, committed, each⟩
    · exact .inl quiet
    · refine .inr ⟨told, (idx, .registerNode (criticalNode m broker)) :: entries, sent, all, ?_,
        fun p inside => ?_⟩
      · rw [committed, Cluster.marked, append_assoc]
        rfl
      · obtain ⟨idx', node, other, registered⟩ := each p inside
        exact ⟨idx', node, other, mem_cons_of_mem _ registered⟩

/-- The request of a failover agrees with what has been registered only if it is empty. -/
theorem agrees_failoverRequest {entries : List (UInt64 × Command)} (tidy : c.fsm.Tidy lower)
    (each : ∀ p ∈ led lower failed c.fsm, ∃ idx node, node.node ≠ failed ∧
      (idx, Command.registerPartition (reassigned failed p node)) ∈ entries) :
    Agrees entries (failoverRequest lower failed c) ↔ led lower failed c.fsm = [] := by
  constructor
  · intro agrees
    refine eq_nil_iff_forall_not_mem.mpr fun p inside => ?_
    obtain ⟨idx, node, other, registered⟩ := each p inside
    obtain ⟨-, same⟩ := agrees (reassignedState p) (mem_map_of_mem inside)
    have leader : node.node = p.leader := (same idx _ registered rfl rfl).1
    exact other (leader.trans (tidy.mem_partitionsByLeader.mp inside).2)
  · intro empty p inside
    rw [failoverRequest, empty] at inside
    cases inside

/-- If a request is sent, the topic and then all its partitions have been registered. -/
theorem registerTopic_told (topic : Str) (ps : List Fsm.Partition) (b : Broker) :
    ((registerTopic lower topic ps).run b).state.cluster.sent = b.cluster.sent ∨ ∃ told entries,
        ((registerTopic lower topic ps).run b).state.cluster.sent = b.cluster.sent ++ told ∧
        (∀ e ∈ told, e.2 = creationRequest b.cluster ps) ∧
        ((registerTopic lower topic ps).run b).state.cluster.committed =
          b.cluster.committed ++ entries ∧
        entries.map Prod.snd = .registerTopic (newTopic topic ps) :: ps.map .registerPartition := by
  obtain ⟨entries, applied, ⟨-, -, stuck⟩ | ⟨commands, goes⟩⟩ :=
    registerTopic_cases lower topic ps b
  · rw [stuck]
    exact .inl rfl
  · obtain ⟨dialled, told, same, all⟩ := announced_announces (creationRequest b.cluster ps) _
      { b with cluster := { b.cluster.after lower entries applied with
        listed := b.cluster.listed + 1 } }
    rw [goes, same]
    exact .inr ⟨told, entries, rfl, all, rfl, commands⟩

theorem createTopic_told (topic : CreateTopicRequest) (b : Broker) :
    ((createTopic lower topic).run b).state.cluster.sent = b.cluster.sent ∨
      ∃ ps told entries, Built topic.topic ps ∧
        ((createTopic lower topic).run b).state.cluster.sent = b.cluster.sent ++ told ∧
        (∀ e ∈ told, e.2 = creationRequest b.cluster ps) ∧
        ((createTopic lower topic).run b).state.cluster.committed =
          b.cluster.committed ++ entries ∧ entries.map Prod.snd =
          .registerTopic (newTopic topic.topic ps) :: ps.map .registerPartition := by
  obtain ⟨listed, drawn, ⟨same, -⟩ | ⟨ps, -, made, goes⟩⟩ := createTopic_cases lower topic b
  · rw [same]
    exact .inl rfl
  · rw [goes]
    rcases @registerTopic_told lower topic.topic ps
        { b with cluster := { b.cluster with listed, drawn } } with
      quiet | ⟨told, entries, sent, all, committed, commands⟩
    · exact .inl quiet
    · exact .inr ⟨ps, told, entries, buildPartitions_built made, sent, all, committed, commands⟩

theorem agrees_creationRequest {topic : Str} {ps : List Fsm.Partition} {t : Fsm.Topic}
    {entries : List (UInt64 × Command)} (built : Built topic ps)
    (commands : entries.map Prod.snd = .registerTopic t :: ps.map .registerPartition) :
    Agrees entries (creationRequest c ps) := by
  intro state inside
  obtain ⟨p, present, rfl⟩ := mem_map.mp inside
  have registered : Command.registerPartition p ∈ entries.map Prod.snd := by
    rw [commands]
    exact mem_cons_of_mem _ (mem_map_of_mem present)
  constructor
  · obtain ⟨⟨idx, command⟩, here, rfl⟩ := mem_map.mp registered
    exact ⟨idx, p, here, rfl, (built.id p present).symm⟩
  · intro idx row here _ same
    have known : Command.registerPartition row ∈ entries.map Prod.snd := mem_map_of_mem here
    rw [commands] at known
    rcases mem_cons.mp known with other | among
    · cases other
    · obtain ⟨q, present', equal⟩ := mem_map.mp among
      obtain rfl := Command.registerPartition.inj equal
      have number : q.partition = p.partition := same.trans (built.id p present)
      obtain rfl := inj_on_of_nodup_map built.distinct present' present number
      exact ⟨rfl, rfl, rfl⟩

/-- A request that is sent when a broker fails agrees with the rows that the same call
registered if and only if the broker led no partition; one that is sent when a topic is created
always agrees. -/
theorem announcements_agree_iff (lower : Str → Str) :
    (∀ (c : Cluster) (m : SerfMember) (broker : MetaBroker), isBroker m = some broker →
      c.fsm.Tidy lower → ∀ told entries,
      ((handleFailedMember lower m).run c).state.sent = c.sent ++ told →
      ((handleFailedMember lower m).run c).state.committed = c.committed ++ entries →
      ∀ e ∈ told, (Agrees entries e.2 ↔ led lower broker.id c.fsm = [])) ∧
    ∀ (b : Broker) (topic : CreateTopicRequest) told entries,
      ((createTopic lower topic).run b).state.cluster.sent = b.cluster.sent ++ told →
      ((createTopic lower topic).run b).state.cluster.committed = b.cluster.committed ++ entries →
      ∀ e ∈ told, Agrees entries e.2 := by
  constructor
  · intro c m broker member tidy told entries sent committed e inside
    rcases handleFailedMember_registered member tidy with
      quiet | ⟨told', entries', sent', all, committed', each⟩
    · rw [quiet, self_eq_append_right] at sent
      rw [sent] at inside
      cases inside
    · obtain rfl := append_cancel_left (sent.symm.trans sent')
      obtain rfl := append_cancel_left (committed.symm.trans committed')
      rw [all e inside]
      exact agrees_failoverRequest tidy each
  · intro b topic told entries sent committed e inside
    rcases @createTopic_told lower topic b with
      quiet | ⟨ps, told', entries', built, sent', all, committed', commands⟩
    · rw [quiet, self_eq_append_right] at sent
      rw [sent] at inside
      cases inside
    · obtain rfl := append_cancel_left (sent.symm.trans sent')
      obtain rfl := append_cancel_left (committed.symm.trans committed')
      rw [all e inside]
      exact agrees_creationRequest built commands

/-- The broker 1 and its peer 2, which the network reaches. -/
def connected (fsm : Store) : Cluster :=
  { lone fsm fun _ => .ok 9 with
    lookup := ⟨[(ascii "r1", ⟨1, ascii "r1", ascii "b1"⟩), (ascii "r2", ⟨2, ascii "r2", ascii "b2"⟩)],
      [(1, ⟨1, ascii "r1", ascii "b1"⟩), (2, ⟨2, ascii "r2", ascii "b2"⟩)]⟩ }

/-- A broker that has just been started. -/
def started (c : Cluster) : Broker where
  cluster := c
  dataDir := "d"
  devMode := true
  members := 2
  controller := true
  late := fun _ => false
  waited := 0
  disk := ⟨[], [], []⟩
  segs := []
  logs := []
  replicas := []
  lookup := []
  replicators := []

/-- Creating a topic with one partition on both brokers tells the other one of it; the failure
of a broker that leads a partition is told wrong. -/
theorem announcements_agree_created :
    (let b := (createTopic id ⟨ascii "t", 1, 2, none, none⟩).run
        (started (connected Store.new))
      ∃ e ∈ b.state.cluster.sent, Agrees b.state.cluster.committed e.2) ∧
    (let c := (handleFailedMember id firstMember).run (connected replicated)
      ∃ e ∈ c.state.sent, ¬ Agrees c.state.committed e.2) := by
  constructor
  · refine ⟨(ascii "b2", creationRequest (connected Store.new)
      [⟨0, 0, ascii "t", [1, 2], [1, 2], 1, 0, 0, 0, 0⟩]), by decide +kernel, ?_⟩
    exact (announcements_agree_iff id).2 (started (connected Store.new)) _ _ _ rfl rfl _
      (by decide +kernel)
  · refine ⟨(ascii "b2", failoverRequest id 1 (connected replicated)),
      by decide +kernel, fun agrees => ?_⟩
    have empty := ((announcements_agree_iff id).1 (connected replicated) firstMember
      ⟨1, [], []⟩ (by decide +kernel) (Store.Clean.new.applyAll _).tidy
      ((handleFailedMember id firstMember).run (connected replicated)).state.sent
      ((handleFailedMember id firstMember).run (connected replicated)).state.committed
      rfl rfl _ (by decide +kernel)).mp agrees
    revert empty
    decide +kernel

/-- The row that is registered has the leader 2, and the brokers are told that it is still 1. -/
theorem failover_tells_old_leader :
    let c := (handleFailedMember id firstMember).run (connected replicated)
    c.state.sent = [(ascii "b2",
      ⟨0, 1, 0, [⟨ascii "t", 0, 0, 1, 0, [1, 2], 0, [1, 2, 3], false⟩], []⟩)] ∧
    (c.state.committed.map Prod.snd).getLast? = some (.registerPartition
      ⟨0, 0, ascii "t", [2], [2, 3], 2, 0, 0, 0, 0⟩) := by
  decide +kernel

end Jocko.Broker
