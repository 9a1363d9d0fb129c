import Jocko.Broker.FailoverRun
import Jocko.Broker.Replicas

namespace Jocko.Broker

open Go MemDB Fsm Protocol Cluster List Option

variable {lower : Str → Str} {α : Type}

theorem onCluster_state (call : Call Cluster α) (b : Broker) :
    ((onCluster call).run b).state = { b with cluster := (call.run b.cluster).state } :=
  zoom_state _ _ call b

theorem onCluster_ok {call : Call Cluster α} {b : Broker} {value : α} {c : Cluster}
    (returned : call.run b.cluster = .ok value c) :
    (onCluster call).run b = .ok value { b with cluster := c } :=
  zoom_ok returned

theorem onCluster_error {call : Call Cluster α} {b : Broker} {why : Stop} {c : Cluster}
    (stopped : call.run b.cluster = .error why c) :
    (onCluster call).run b = .error why { b with cluster := c } :=
  zoom_error stopped

theorem getReplica_state (r : Nat) (b : Broker) : ((getReplica r).run b).state = b := by
  unfold getReplica
  dsimp only
  split <;> rfl

variable {b : Broker} {r : Nat} {replica : Replica}

theorem getReplica_run
    (here : b.replicas[r]? = some replica) : (getReplica r).run b = .ok replica b := by
  simp only [getReplica, here]

/-- A method of a log leaves everything but the logs and their files. -/
theorem onLog_state (r : Nat) (call : Call Commitlog.World α) (b : Broker) :
    ∃ disk segs logs, ((onLog r call).run b).state = { b with disk, segs, logs } := by
  unfold onLog
  dsimp only
  split
  · exact ⟨b.disk, b.segs, b.logs, rfl⟩
  · split
    · exact ⟨_, _, _, rfl⟩
    · exact ⟨_, _, _, rfl⟩

theorem newLog_state (opts : Commitlog.Options) (b : Broker) :
    ∃ disk segs logs, ((newLog opts).run b).state = { b with disk, segs, logs } := by
  unfold newLog
  dsimp only
  split
  · exact ⟨_, _, _, rfl⟩
  · exact ⟨_, _, b.logs, rfl⟩

theorem set_same
    (here : b.replicas[r]? = some replica) : b.replicas.set r replica = b.replicas := by
  obtain ⟨inside, rfl⟩ := List.getElem?_eq_some_iff.mp here
  exact List.set_getElem_self inside

theorem startReplica_state {b : Broker} {r : Nat} {replica : Replica}
    (here : b.replicas[r]? = some replica) :
    ∃ disk segs logs log, ((startReplica lower r).run b).state =
      { b with disk, segs, logs, replicas := b.replicas.set r { replica with log } } := by
  have same : b = { b with replicas := b.replicas.set r { replica with log := replica.log } } := by
    rw [set_same here]
  have read : (onCluster state).run b = .ok b.cluster.fsm b := rfl
  unfold startReplica
  rw [bind_ok (getReplica_run here), bind_ok read]
  split
  · exact ⟨_, _, _, _, same⟩
  · split
    · exact ⟨_, _, _, _, same⟩
    · split
      · rename_i policy _
        obtain ⟨disk, segs, logs, opened⟩ :=
          newLog_state ⟨logDir b.dataDir replica.partition.id, 1024, -1, toText policy⟩ b
        rw [bind_ok (show (⟨fun b => .ok b.dataDir b⟩ : Call Broker String).run b = _ from rfl)]
        rw [← attempt_state] at opened
        have stays : { b with disk, segs, logs } = { b with
            disk, segs, logs, replicas := b.replicas.set r { replica with log := replica.log } } := by
          rw [set_same here]
        refine bind_ends (P := fun b' => ∃ disk segs logs log, b' = { b with
          disk, segs, logs, replicas := b.replicas.set r { replica with log } })
            ⟨disk, segs, logs, _, opened.trans stays⟩ fun made => ?_
        rw [opened]
        cases made with
        | error cause => exact ⟨disk, segs, logs, _, stays⟩
        | ok log => exact ⟨disk, segs, logs, some log, rfl⟩
      · exact ⟨_, _, _, _, same⟩

/-- The replica of a place has no replicator, or a new one that fills it. -/
def Engages (r : Nat) (before : List Replicator) (replicator : Option Nat)
    (after : List Replicator) : Prop :=
  (replicator = none ∧ after = before) ∨
    (replicator = some before.length ∧ ∃ leader started, after = before ++ [⟨r, leader, started, false⟩])

variable (cmd : PartitionState)

theorem becomeLeader_state
    (here : b.replicas[r]? = some replica) (idle : replica.replicator = none) :
    ((becomeLeader r cmd).run b).state = { b with replicas := b.replicas.set r { replica with
      replicator := none
      partition := { replica.partition with
        leader := cmd.leader
        ar := cmd.replicas
        isr := cmd.isr
        leaderEpoch := cmd.zkVersion } } } := by
  have stopped : (stopReplicator replica).run b = .ok () b := by
    simp only [stopReplicator, idle, run_pure]
  unfold becomeLeader
  rw [bind_ok (getReplica_run here), bind_ok stopped]
  rfl

theorem modify_last {β : Type} (l : List β) (x : β) (f : β → β) :
    (l ++ [x]).modify l.length f = l ++ [f x] := by
  rw [modify_eq_set_getElem?, getElem?_concat_length]
  simp

/-- `becomeFollower` from the search for the leader on. -/
theorem becomeFollower_end
    (here : b.replicas[r]? = some replica) (idle : replica.replicator = none) :
    ∃ dialled replicator replicators, ((do
      match ← onCluster (brokerByID cmd.leader) with
      | none => return .brokerNotAvailable
      | some broker =>
        match ← attempt (onCluster reach) with
        | .error _ => return .unknown
        | .ok _ => do
          let k ← newReplicator r broker.brokerAddr
          setReplica r { replica with replicator := some k }
          if ← ⟨fun b => .ok b.devMode b⟩ then return .none
          else
            replicate k
            return .none : Call Broker ErrorCode).run b).state = { b with
      cluster := { b.cluster with dialled }
      replicas := b.replicas.set r { replica with replicator }
      replicators } ∧ Engages r b.replicators replicator replicators := by
  have same : b.replicas = b.replicas.set r { replica with replicator := none } := by
    rw [← idle, set_same here]
  have looked : (onCluster (brokerByID cmd.leader)).run b =
      .ok (b.cluster.lookup.idToBroker.lookup cmd.leader) b := rfl
  rw [bind_ok looked]
  split
  · exact ⟨b.cluster.dialled, none, b.replicators, by rw [← same]; rfl, .inl ⟨rfl, rfl⟩⟩
  · rename_i broker _
    rcases reach_cases b.cluster with reached | ⟨cause, refused⟩
    · rw [bind_ok (attempt_ok (onCluster_ok reached))]
      cases dev : b.devMode with
      | true =>
        refine ⟨b.cluster.dialled + 1, some b.replicators.length, _, ?_,
          .inr ⟨rfl, broker.brokerAddr, false, rfl⟩⟩
        simp only [bind, newReplicator, setReplica, ↓reduceIte, run_pure, Result.state]
      | false =>
        refine ⟨b.cluster.dialled + 1, some b.replicators.length, _, ?_,
          .inr ⟨rfl, broker.brokerAddr, true, rfl⟩⟩
        simp only [bind, newReplicator, setReplica, replicate, Bool.false_eq_true, ↓reduceIte,
          run_pure, Result.state, modify_last]
    · rw [bind_ok (attempt_err (onCluster_error refused))]
      exact ⟨b.cluster.dialled + 1, none, b.replicators, by rw [← same]; rfl, .inl ⟨rfl, rfl⟩⟩

/-- The log is truncated and the replica has a replicator, at most. -/
def Engaged (r : Nat) (replica : Replica) (b b' : Broker) : Prop :=
  ∃ dialled disk segs logs replicator replicators, b' = { b with
    cluster := { b.cluster with dialled }
    disk
    segs
    logs
    replicas := b.replicas.set r { replica with replicator }
    replicators } ∧ Engages r b.replicators replicator replicators

theorem becomeFollower_state
    (here : b.replicas[r]? = some replica) (idle : replica.replicator = none) :
    Engaged r replica b ((becomeFollower r cmd).run b).state := by
  obtain ⟨brokerID, partition, isLocal, log, _⟩ := replica
  obtain rfl := idle
  have same := (set_same here).symm
  have stopped : (stopReplicator ⟨brokerID, partition, isLocal, log, none⟩).run b = .ok () b := rfl
  unfold becomeFollower
  rw [bind_ok (getReplica_run here), bind_ok stopped]
  cases log with
  | none =>
    exact ⟨b.cluster.dialled, b.disk, b.segs, b.logs, none, b.replicators, by rw [← same]; rfl,
      .inl ⟨rfl, rfl⟩⟩
  | some log =>
    dsimp only
    have stays (disk : Disk) (segs : List Commitlog.Segment) (logs : List Commitlog.CommitLog) :
        Engaged r ⟨brokerID, partition, isLocal, some log, none⟩ b { b with disk, segs, logs } :=
      ⟨b.cluster.dialled, disk, segs, logs, none, b.replicators, by rw [← same], .inl ⟨rfl, rfl⟩⟩
    obtain ⟨disk, segs, logs, read⟩ := onLog_state log Commitlog.newestOffset b
    refine bind_ends (by rw [read]; exact stays ..) fun hw => ?_
    rw [read]
    obtain ⟨disk', segs', logs', cut⟩ := onLog_state log (Commitlog.truncate hw)
      { b with disk, segs, logs }
    rw [← attempt_state] at cut
    refine bind_ends (by rw [cut]; exact stays ..) fun done => ?_
    rw [cut]
    cases done with
    | error cause => exact stays disk' segs' logs'
    | ok _ =>
      obtain ⟨dialled, replicator, replicators, ends, engages⟩ := becomeFollower_end
        (b := { b with disk := disk', segs := segs', logs := logs' }) cmd here rfl
      exact ⟨dialled, disk', segs', logs', replicator, replicators, ends, engages⟩

/-- What the rest of a round makes of the replica that was made for a state. -/
def Installed (r : Nat) (replica : Replica) (b b' : Broker) : Prop :=
  ∃ dialled disk segs logs partition log replicator replicators,
    b' = { b with
      cluster := { b.cluster with dialled }
      disk
      segs
      logs
      replicas := b.replicas.set r { replica with partition, log, replicator }
      replicators } ∧
    partition.topic = replica.partition.topic ∧ partition.id = replica.partition.id ∧
    partition.leader = replica.partition.leader ∧ Engages r b.replicators replicator replicators ∧
    (partition.leader = b.cluster.id → replicator = none)

theorem assume_installs {become : Call Broker ErrorCode}
    (here : b.replicas[r]? = some replica) (idle : replica.replicator = none)
    (installs : ∀ disk segs logs log, Installed r { replica with log }
      { b with disk, segs, logs, replicas := b.replicas.set r { replica with log } }
      (become.run { b with disk, segs, logs, replicas := b.replicas.set r { replica with log } }).state) :
    Installed r replica b ((assume lower r become).run b).state := by
  obtain ⟨disk, segs, logs, log, started⟩ := @startReplica_state lower b r replica here
  have stays : Installed r replica b
      { b with disk, segs, logs, replicas := b.replicas.set r { replica with log } } :=
    ⟨b.cluster.dialled, disk, segs, logs, replica.partition, log, none, b.replicators,
      by rw [← idle], rfl, rfl, rfl, .inl ⟨rfl, rfl⟩, fun _ => rfl⟩
  unfold assume
  refine bind_ends (by rw [started]; exact stays) fun code => ?_
  rw [started]
  by_cases fine : code = .none
  · subst fine
    obtain ⟨dialled, disk', segs', logs', partition, log', replicator, replicators, same, rest⟩ :=
      installs disk segs logs log
    refine ⟨dialled, disk', segs', logs', partition, log', replicator, replicators, ?_, rest⟩
    rw [same, set_set]
  · cases code <;> first | exact stays | exact absurd rfl fine

theorem takeRole_installs {b : Broker} {r : Nat} {replica : Replica} (p : PartitionState)
    (here : b.replicas[r]? = some replica) (idle : replica.replicator = none)
    (leader : replica.partition.leader = p.leader) :
    Installed r replica b ((takeRole lower b.cluster.id r p).run b).state := by
  have inside := (List.getElem?_eq_some_iff.mp here).1
  unfold takeRole
  split
  · refine assume_installs here idle fun disk segs logs log => ?_
    have held : (b.replicas.set r { replica with log })[r]? = some { replica with log } :=
      getElem?_set_self inside
    rw [becomeLeader_state (b := { b with
      disk
      segs
      logs
      replicas := b.replicas.set r { replica with log } }) p held idle]
    exact ⟨b.cluster.dialled, disk, segs, logs, _, log, none, b.replicators, rfl, rfl, rfl,
      leader.symm, .inl ⟨rfl, rfl⟩, fun _ => rfl⟩
  · rename_i other
    split
    · refine assume_installs here idle fun disk segs logs log => ?_
      obtain ⟨dialled, disk', segs', logs', replicator, replicators, same, engages⟩ :=
        becomeFollower_state (b := { b with
          disk
          segs
          logs
          replicas := b.replicas.set r { replica with log } }) p (getElem?_set_self inside) idle
      exact ⟨dialled, disk', segs', logs', _, log, replicator, replicators, same, rfl, rfl, rfl,
        engages, fun led => absurd (leader.symm.trans led) other⟩
    · exact ⟨b.cluster.dialled, b.disk, b.segs, b.logs, replica.partition, replica.log, none,
        b.replicators, by rw [← idle, set_same here]; rfl, rfl, rfl, rfl, .inl ⟨rfl, rfl⟩,
        fun _ => rfl⟩

/-- A replica that is made for a state takes the place of the one in the lookup. -/
def hosting (b : Broker) (p : PartitionState) : Broker :=
  { b with
    replicas := b.replicas ++ [stateReplica b.cluster.id p]
    lookup := ((p.topic, p.partition), b.replicas.length) ::
      b.lookup.filter fun e => e.1 ≠ (p.topic, p.partition) }

theorem handleState_run (p : PartitionState) (b : Broker) : (handleState lower p).run b = (do
    let code ← takeRole lower b.cluster.id b.replicas.length p
    return ⟨p.topic, p.partition, code.code⟩ : Call Broker LeaderAndISRPartition).run
      (b.hosting p) := rfl

theorem handleState_installs (p : PartitionState) (b : Broker) :
    Installed b.replicas.length (stateReplica b.cluster.id p) (b.hosting p)
      ((handleState lower p).run b).state := by
  rw [handleState_run, bind_state fun _ _ => rfl]
  exact takeRole_installs (b := b.hosting p) p getElem?_concat_length rfl rfl

end Jocko.Broker
