import Jocko.Broker.Topics
import Jocko.Broker.RoleChanges

namespace Jocko.Broker

open Go MemDB Fsm Protocol Cluster List

/-- A step that only uses the network. -/
def Dials (b b' : Broker) : Prop := ∃ dialled, b'.cluster = { b.cluster with dialled }

instance : IsPreorder Broker Dials where
  refl b := ⟨b.cluster.dialled, rfl⟩
  trans := by
    rintro a b c ⟨first, same⟩ ⟨second, same'⟩
    exact ⟨second, by rw [same', same]⟩

/-- The broker tells others the request and handles it itself. -/
def Announces (req : LeaderAndISRRequest) (b b' : Broker) : Prop := Tells req b.cluster b'.cluster

instance (req : LeaderAndISRRequest) : IsPreorder Broker (Announces req) where
  refl b := refl_of (Tells req) b.cluster
  trans _ _ _ first second := trans_of (Tells req) first second

variable {lower : Str → Str} {α : Type}

section

variable {call : Call Broker α}

theorem Dials.of_same (same : ∀ b, (call.run b).state.cluster = b.cluster) : call.Moves Dials := by
  intro b
  exact ⟨b.cluster.dialled, same b⟩

theorem Dials.announces (req : LeaderAndISRRequest) (dials : call.Moves Dials) :
    call.Moves (Announces req) := by
  intro b
  obtain ⟨dialled, same⟩ := dials b
  exact ⟨dialled, [], by rw [same, append_nil], by simp⟩

end

theorem reach_dials : (onCluster reach).Moves Dials := by
  intro b
  rw [onCluster_state]
  rcases reach_cases b.cluster with ok | ⟨cause, failed⟩
  · rw [ok]
    exact ⟨_, rfl⟩
  · rw [failed]
    exact ⟨_, rfl⟩

theorem handleState_dials (p : PartitionState) : (handleState lower p).Moves Dials := by
  intro b
  obtain ⟨dialled, _, _, _, _, _, _, _, same, -⟩ := @handleState_installs lower p b
  rw [same]
  exact ⟨dialled, rfl⟩

theorem handleStates_dials (states : List PartitionState) :
    (handleStates lower states).Moves Dials := by
  induction states with
  | nil => exact .pure _
  | cons p states ih =>
    refine .bind (handleState_dials p) fun first => ?_
    exact .bind ih fun rest => .pure _

/-- A leader-and-ISR request changes nothing that brokers share. -/
theorem handleLeaderAndISR_dials (req : LeaderAndISRRequest) :
    (handleLeaderAndISR lower req).Moves Dials :=
  Call.Moves.bind (handleStates_dials _) fun _ => .pure _

theorem announce_announces (req : LeaderAndISRRequest) (brokers : List MetaBroker) :
    (announce lower req brokers).Moves (Announces req) := by
  induction brokers with
  | nil => exact .pure _
  | cons broker brokers ih =>
    refine .bind (Dials.announces req (Dials.of_same fun b => rfl)) fun id => ?_
    split
    · refine .bind (Dials.announces req (handleLeaderAndISR_dials req)) fun res => ?_
      split
      · exact .stop _
      · exact ih
    · refine .bind (Dials.announces req reach_dials) fun _ => ?_
      refine .bind (fun b => ?_) fun _ => ih
      rw [onCluster_state]
      exact sendLeaderAndISR_tells _ req b.cluster

/-- The partitions of a new topic: numbered from 0 on, all their replicas in sync. -/
structure Built (topic : Str) (ps : List Fsm.Partition) : Prop where
  topic : ∀ p ∈ ps, p.topic = topic
  id : ∀ p ∈ ps, p.id = p.partition
  distinct : (ps.map Fsm.Partition.partition).Nodup

/-- A step that only reads the brokers and draws random numbers. -/
def Draws (c c' : Cluster) : Prop := ∃ listed drawn, c' = { c with listed, drawn }

instance : IsPreorder Cluster Draws where
  refl c := ⟨c.listed, c.drawn, rfl⟩
  trans := by
    rintro a _ _ ⟨_, _, rfl⟩ ⟨listed, drawn, rfl⟩
    exact ⟨listed, drawn, rfl⟩

theorem intn_draws (n : Nat) : (intn n).Moves Draws := by
  intro c
  unfold intn
  dsimp only
  split <;> exact ⟨_, _, rfl⟩

theorem buildLoop_draws (topic : Str) (brokers : List MetaBroker) (followers left i place : Nat) :
    (buildLoop topic brokers followers left i place).Moves Draws := by
  induction left generalizing i place with
  | zero => exact .pure _
  | succ left ih => exact .bind (intn_draws _) fun n => .bind (ih _ _) fun rest => .pure _

theorem buildPartitions_draws (topic : Str) (count : Int32) (factor : Int16) :
    (buildPartitions topic count factor).Moves Draws := by
  refine .bind (fun c => ⟨c.listed + 1, c.drawn, rfl⟩) fun brokers => ?_
  split
  · exact .pure _
  · exact .bind (buildLoop_draws _ _ _ _ _ _) fun ps => .pure _

variable {topic : Str} {ps : List Fsm.Partition} {c c' : Cluster}

/-- Each partition has its number, and its replicas from some place of the ring on. -/
theorem buildLoop_built {brokers : List MetaBroker} {followers left i place : Nat}
    (returned : (buildLoop topic brokers followers left i place).run c = .ok ps c') :
    (∀ p ∈ ps, p.topic = topic ∧ p.id = p.partition ∧ p.isr = p.ar ∧ brokers ≠ [] ∧ ∃ place,
      p.ar = ringReplicas brokers place followers ∧ p.leader = ringID brokers place) ∧
      ps.map Fsm.Partition.partition = (List.range' i left).map Int32.ofNat := by
  induction left generalizing i place c c' ps with
  | zero =>
    cases returned
    simp
  | succ left ih =>
    unfold buildLoop at returned
    obtain ⟨n, c₁, drew, returned⟩ := bind_eq_ok returned
    obtain ⟨rest, c₂, made, returned⟩ := bind_eq_ok returned
    cases returned
    obtain ⟨each, numbers⟩ := ih made
    constructor
    · intro p inside
      rcases mem_cons.mp inside with rfl | later
      · refine ⟨rfl, rfl, rfl, ?_, place + n, rfl, rfl⟩
        rintro rfl
        cases drew
      · exact each p later
    · rw [map_cons, numbers, range'_succ, map_cons]

theorem nodup_range'_ofNat {count : Nat} (bounded : count ≤ 2 ^ 31) :
    ((List.range' 0 count).map Int32.ofNat).Nodup := by
  refine Nodup.map_on (fun i inside j inside' same => ?_) nodup_range'
  simp only [mem_range'_1, Nat.zero_add] at inside inside'
  have values := congrArg Int32.toInt same
  rw [Int32.toInt_ofNat_of_lt (by omega), Int32.toInt_ofNat_of_lt (by omega)] at values
  omega

section

variable {count : Int32} {factor : Int16}
  (returned : (buildPartitions topic count factor).run c = .ok (.ok ps) c')
include returned

theorem buildPartitions_ok :
    let bs := (c.order c.listed).pick (c.lookup.addressToBroker.map Prod.snd)
    (∀ p ∈ ps, p.topic = topic ∧ p.id = p.partition ∧ p.isr = p.ar ∧ bs ≠ [] ∧ ∃ place,
      p.ar = ringReplicas bs place (factor - 1).toInt.toNat ∧ p.leader = ringID bs place) ∧
      ps.map Fsm.Partition.partition = (List.range' 0 count.toInt.toNat).map Int32.ofNat := by
  unfold buildPartitions at returned
  obtain ⟨brokers, c₁, read, returned⟩ := bind_eq_ok returned
  cases read
  split at returned
  · cases returned
  · obtain ⟨made, c₂, built, returned⟩ := bind_eq_ok returned
    cases returned
    exact buildLoop_built built

/-- The numbers of the partitions lie below their count. -/
theorem buildPartitions_numbers : ∀ p ∈ ps, p.partition < count := by
  intro p inside
  have here : p.partition ∈ ps.map Fsm.Partition.partition := mem_map_of_mem inside
  rw [(buildPartitions_ok returned).2] at here
  obtain ⟨i, below, same⟩ := mem_map.mp here
  rw [mem_range'_1, Nat.zero_add] at below
  have bound := count.toInt_lt
  rw [Int32.lt_iff_toInt_lt, ← same, Int32.toInt_ofNat_of_lt (by omega)]
  omega

theorem buildPartitions_built : Built topic ps := by
  obtain ⟨each, numbers⟩ := buildPartitions_ok returned
  refine ⟨fun p inside => (each p inside).1, fun p inside => (each p inside).2.1, ?_⟩
  rw [numbers]
  have bound := count.toInt_lt
  exact nodup_range'_ofNat (by omega)

end

theorem buildPartitions_error {count : Int32} {factor : Int16} {code : ErrorCode}
    (returned : (buildPartitions topic count factor).run c = .ok (.error code) c') :
    code ≠ .none := by
  unfold buildPartitions at returned
  obtain ⟨brokers, c₁, -, returned⟩ := bind_eq_ok returned
  split at returned
  · cases returned
    decide
  · obtain ⟨made, c₂, -, returned⟩ := bind_eq_ok returned
    cases returned

/-- The cluster once raft has committed some entries. -/
def Cluster.after (lower : Str → Str) (entries : List (UInt64 × Command)) (applied : Nat)
    (c : Cluster) : Cluster :=
  { c with applied, fsm := c.fsm.applyAll lower entries, committed := c.committed ++ entries }

theorem after_nil (c : Cluster) (applied : Nat) : c.after lower [] applied = { c with applied } := by
  simp [Cluster.after, Store.applyAll]

theorem after_after (c : Cluster) (e e' : List (UInt64 × Command)) (n n' : Nat) :
    (c.after lower e n).after lower e' n' = c.after lower (e ++ e') n' := by
  simp [Cluster.after, Store.applyAll]

/-- A write to raft is committed, or refused. -/
theorem raftApply_cases (lower : Str → Str) (command : Command) (c : Cluster) :
    (∃ idx response, (raftApply lower command).run c =
      .ok response (c.after lower [(idx, command)] (c.applied + 1))) ∨
    ∃ cause, c.raft c.applied = .error cause ∧ (raftApply lower command).run c =
      .error (.err cause) (c.after lower [] (c.applied + 1)) := by
  cases next : c.raft c.applied with
  | error cause => exact .inr ⟨cause, rfl, by rw [raftApply_error next, after_nil]⟩
  | ok idx => exact .inl ⟨idx, _, raftApply_ok next⟩

/-- The partitions are registered one after the other, up to the first that raft refuses. -/
theorem createPartitions_cases (lower : Str → Str) (ps : List Fsm.Partition) (c : Cluster) :
    ∃ entries applied,
      (entries.map Prod.snd = ps.map .registerPartition ∧
        (createPartitions lower ps).run c = .ok () (c.after lower entries applied)) ∨
      (entries.map Prod.snd <+: ps.map .registerPartition ∧ ∃ n cause, c.raft n = .error cause ∧
        (createPartitions lower ps).run c =
          .error (.err cause) (c.after lower entries applied)) := by
  induction ps generalizing c with
  | nil => exact ⟨[], c.applied, .inl ⟨rfl, by rw [after_nil]; rfl⟩⟩
  | cons p ps ih =>
    unfold createPartitions
    rcases raftApply_cases lower (.registerPartition p) c with
      ⟨idx, response, ok⟩ | ⟨cause, refused, failed⟩
    · rw [bind_ok ok]
      obtain ⟨entries, applied, rest⟩ := ih (c.after lower [(idx, .registerPartition p)] _)
      simp only [after_after] at rest
      refine ⟨_, applied, rest.imp (fun done => ⟨?_, done.2⟩) fun stuck => ⟨?_, stuck.2⟩⟩
      · rw [map_append, done.1]
        rfl
      · exact (prefix_cons_inj _).mpr stuck.1
    · exact ⟨[], _, .inr ⟨by simp, _, cause, refused, bind_error failed⟩⟩

/-- The request that `createTopic` makes of the partitions. -/
def creationRequest (c : Cluster) (ps : List Fsm.Partition) : LeaderAndISRRequest :=
  ⟨0, c.id, 0, ps.map createdState, []⟩

/-- What `registerTopic` does once everything is registered. -/
def announced (lower : Str → Str) (req : LeaderAndISRRequest) (brokers : List MetaBroker) :
    Call Broker ErrorCode := do
  match ← attempt (announce lower req brokers) with
  | .error _ => return .unknown
  | .ok _ => return .none

theorem announced_announces (req : LeaderAndISRRequest) (brokers : List MetaBroker) :
    (announced lower req brokers).Moves (Announces req) := by
  refine .bind (.attempt (announce_announces req brokers)) fun outcome => ?_
  cases outcome <;> exact .pure _

/-- The topic and its partitions are registered up to the first write that raft refuses; if it
refuses none, the brokers are told. -/
theorem registerTopic_cases (lower : Str → Str) (topic : Str) (ps : List Fsm.Partition)
    (b : Broker) :
    ∃ entries applied,
      (entries.map Prod.snd <+: .registerTopic (newTopic topic ps) :: ps.map .registerPartition ∧
        (∃ n cause, b.cluster.raft n = .error cause) ∧ (registerTopic lower topic ps).run b =
          .ok .unknown { b with cluster := b.cluster.after lower entries applied }) ∨
      (entries.map Prod.snd = .registerTopic (newTopic topic ps) :: ps.map .registerPartition ∧
        (registerTopic lower topic ps).run b =
          (announced lower (creationRequest b.cluster ps) ((b.cluster.order b.cluster.listed).pick
            (b.cluster.lookup.addressToBroker.map Prod.snd))).run
            { b with cluster := { b.cluster.after lower entries applied with
              listed := b.cluster.listed + 1 } }) := by
  unfold registerTopic
  rcases raftApply_cases lower (.registerTopic (newTopic topic ps)) b.cluster with
    ⟨idx, response, ok⟩ | ⟨cause, refused, failed⟩
  · rw [bind_ok (attempt_ok (onCluster_ok ok))]
    obtain ⟨entries, applied, ⟨all, done⟩ | ⟨some, n, cause, refused, stuck⟩⟩ :=
      createPartitions_cases lower ps (b.cluster.after lower
        [(idx, .registerTopic (newTopic topic ps))] (b.cluster.applied + 1))
    · refine ⟨(idx, _) :: entries, applied, .inr ⟨congrArg (cons _) all, ?_⟩⟩
      rw [after_after] at done
      exact (bind_ok (attempt_ok (onCluster_ok (b := { b with cluster := _ }) done)))
    · refine ⟨(idx, _) :: entries, applied,
        .inl ⟨(prefix_cons_inj _).mpr some, ⟨n, cause, refused⟩, ?_⟩⟩
      rw [after_after] at stuck
      exact (bind_ok (attempt_err (onCluster_error (b := { b with cluster := _ }) stuck)))
  · exact ⟨[], _, .inl ⟨by simp, ⟨_, cause, refused⟩,
      bind_ok (attempt_err (onCluster_error (b := b) failed))⟩⟩

/-- `createTopic` ends without success before it has written anything, or goes on to register a
topic that is not there. -/
theorem createTopic_cases (lower : Str → Str) (req : CreateTopicRequest) (b : Broker) :
    ∃ listed drawn,
      (((createTopic lower req).run b).state =
          { b with cluster := { b.cluster with listed, drawn } } ∧
        ∀ b', (createTopic lower req).run b ≠ .ok .none b') ∨
      ∃ ps, (b.cluster.fsm.getTopic lower req.topic).2 = none ∧
        (buildPartitions req.topic req.numPartitions req.replicationFactor).run b.cluster =
          .ok (.ok ps) { b.cluster with listed, drawn } ∧
        (createTopic lower req).run b = (registerTopic lower req.topic ps).run
          { b with cluster := { b.cluster with listed, drawn } } := by
  have read : (onCluster state).run b = .ok b.cluster.fsm b := rfl
  unfold createTopic
  rw [bind_ok read]
  split
  · exact ⟨b.cluster.listed, b.cluster.drawn, .inl ⟨rfl, by rintro _ ⟨⟩⟩⟩
  · rename_i unknown
    obtain ⟨listed, drawn, same⟩ := buildPartitions_draws req.topic req.numPartitions
      req.replicationFactor b.cluster
    refine ⟨listed, drawn, ?_⟩
    cases made : (buildPartitions req.topic req.numPartitions req.replicationFactor).run
        b.cluster with
    | error why c =>
      rw [made] at same
      obtain rfl : c = { b.cluster with listed, drawn } := same
      rw [bind_error (onCluster_error made)]
      exact .inl ⟨rfl, by rintro _ ⟨⟩⟩
    | ok outcome c =>
      rw [made] at same
      obtain rfl : c = { b.cluster with listed, drawn } := same
      rw [bind_ok (onCluster_ok made)]
      cases outcome with
      | error code =>
        refine .inl ⟨rfl, fun b' ends => ?_⟩
        cases ends
        exact buildPartitions_error made rfl
      | ok ps => exact .inr ⟨ps, Option.not_isSome_iff_eq_none.mp unknown, rfl, rfl⟩

end Jocko.Broker
