import Jocko.Broker.Leaders
import Jocko.Broker.Membership

namespace Jocko.Broker

open Go MemDB Fsm Protocol Cluster List

variable {lower : Str → Str} {failed : Int32} {passing : List Fsm.Node}

theorem passingNodes_panics {nodes : List Fsm.Node} {why : Stop}
    (stopped : passingNodes failed nodes = .error why) : ∃ text, why = .panic text := by
  induction nodes with
  | nil => cases stopped
  | cons n nodes ih =>
    unfold passingNodes at stopped
    split at stopped
    · cases stopped
      exact ⟨_, rfl⟩
    · cases later : passingNodes failed nodes with
      | error why' =>
        rw [later] at stopped
        cases stopped
        exact ih later
      | ok rest =>
        rw [later] at stopped
        simp only [bind, Except.bind] at stopped
        split at stopped <;> cases stopped

theorem raftApply_returns (command : Command) : (raftApply lower command).Returns := by
  intro c
  cases next : c.raft c.applied with
  | error cause => rw [raftApply_error next]; trivial
  | ok idx => rw [raftApply_ok next]; trivial

theorem reach_returns : reach.Returns := by
  intro c
  rcases reach_cases c with ok | ⟨cause, failed⟩
  · rw [ok]
    trivial
  · rw [failed]
    trivial

theorem tellBrokers_returns (req : LeaderAndISRRequest) (nodes : List Fsm.Node) :
    (tellBrokers req nodes).Returns := by
  induction nodes with
  | nil => exact .pure _
  | cons n nodes ih =>
    refine .bind (fun _ => trivial) fun found => ?_
    split
    · exact ih
    · exact .bind reach_returns fun _ => .bind (.bind (fun _ => trivial) fun _ => reach_returns)
        fun _ => ih

section

variable (some : passing ≠ [])
include some

theorem pickNode_returns : (pickNode passing).Returns := by
  intro c
  obtain ⟨node, chosen⟩ := exists_chosen (c := c) some 0
  rw [pickNode_chosen some chosen]
  trivial

theorem reassignGroups_returns (groups : List (Obj Fsm.Group)) :
    (reassignGroups lower passing groups).Returns := by
  induction groups with
  | nil => exact .pure _
  | cons row groups ih =>
    exact .bind (pickNode_returns some) fun _ => .bind (fun _ => trivial) fun _ =>
      .bind (raftApply_returns _) fun _ => ih

theorem reassignPartitions_returns (partitions : List Fsm.Partition) :
    (reassignPartitions lower failed passing partitions).Returns := by
  induction partitions with
  | nil => exact .pure _
  | cons p partitions ih =>
    exact .bind (pickNode_returns some) fun _ => .bind (raftApply_returns _) fun _ =>
      .bind ih fun _ => .pure _

end

/-- Every node has a check, and someone passes it unless there is nothing to hand over. -/
def Replaceable (lower : Str → Str) (failed : Int32) (nodes : List Fsm.Node) (s : Store) : Prop :=
  ∃ passing, passingNodes failed nodes = .ok passing ∧
    (passing = [] → coordinated lower failed s = [] ∧ led lower failed s = [])

theorem reassign_returned_iff (c : Cluster) : ((reassign lower failed).run c).Returned ↔
    Replaceable lower failed c.fsm.nodes.values c.fsm := by
  have read : state.run c = .ok c.fsm c := rfl
  unfold reassign Replaceable
  rw [bind_ok read]
  change _ ↔ ∃ passing, passingNodes failed ((c.fsm.getNodes lower).2.map Obj.val) = _ ∧ _
  cases found : passingNodes failed ((c.fsm.getNodes lower).2.map Obj.val) with
  | error why =>
    obtain ⟨text, rfl⟩ := passingNodes_panics found
    exact iff_of_false id (by simp)
  | ok passing =>
    have passed : (lift (.ok passing : Except Stop (List Fsm.Node))).run c = .ok passing c := rfl
    rw [bind_ok passed]
    simp only [Except.ok.injEq, exists_eq_left', coordinated, led]
    by_cases empty : passing = []
    · subst empty
      cases (c.fsm.getGroupsByCoordinator lower failed).2 with
      | cons row groups => exact iff_of_false id (by simp)
      | nil =>
        have skipped : (reassignGroups lower [] []).run c = .ok () c := rfl
        rw [bind_ok skipped]
        cases (c.fsm.partitionsByLeader lower failed).2.map Obj.val with
        | cons p partitions => exact iff_of_false id (by simp)
        | nil => exact iff_of_true trivial (by simp)
    · refine iff_of_true ?_ fun none => (empty none).elim
      refine Call.Returns.bind (reassignGroups_returns empty _) (fun _ => ?_) c
      refine .bind (reassignPartitions_returns empty _) fun _ => ?_
      exact .bind (fun _ => trivial) fun _ => tellBrokers_returns _ _

namespace Membership

theorem applied_returns (command : Command) :
    (inCluster (raftApply lower command)).Returns := by
  intro s
  exact (zoom_returned_iff ..).mpr (raftApply_returns command _)

theorem handleDeregisterMember_returns (m : Member) : (handleDeregisterMember lower m).Returns := by
  unfold handleDeregisterMember
  split
  · exact .pure _
  · refine .bind (fun _ => trivial) fun id => ?_
    split
    · exact .pure _
    · refine .bind (removeServer_settles _).returns fun _ => .bind (fun _ => trivial) fun s => ?_
      split
      · exact .pure _
      · exact .bind (applied_returns _) fun _ => .pure _

theorem handleAliveMember_returned_iff (m : Member) (s : Membership) :
    ((handleAliveMember lower m).run s).Returned ↔ (isBroker m.toSerfMember).isSome := by
  unfold handleAliveMember
  cases isBroker m.toSerfMember with
  | none => exact iff_of_false id (by simp)
  | some broker =>
    refine iff_of_true (Call.Returns.bind (joinCluster_settles m broker).returns (fun _ => ?_) s) rfl
    refine .bind (fun _ => trivial) fun state => ?_
    split
    · exact .pure _
    · exact .bind (applied_returns _) fun _ => .pure _

section

variable (lower : Str → Str) (m : Member) (s : Membership)

/-- The event ends, and leaves the rows of a failed broker that nobody can replace. -/
def Survives : Prop := ∃ s', (reconcileMember lower m).run s = .ok () s' ∧
  ∀ broker, m.status = .failed → isBroker m.toSerfMember = some broker →
    (led lower broker.id s.cluster.fsm ≠ [] ∨ coordinated lower broker.id s.cluster.fsm ≠ []) →
    passingNodes broker.id (survivors broker.id s.cluster.fsm) = .ok [] →
    s'.cluster.fsm.partitions = s.cluster.fsm.partitions ∧
      s'.cluster.fsm.groups = s.cluster.fsm.groups

/-- A member that is alive is a broker; one that failed, and whose failure is written, can be
replaced. -/
def Bearable : Prop :=
  match m.status with
  | .alive => (isBroker m.toSerfMember).isSome
  | .failed => ∀ broker idx, isBroker m.toSerfMember = some broker →
      s.cluster.raft s.cluster.applied = .ok idx →
      Replaceable lower broker.id (survivors broker.id s.cluster.fsm) s.cluster.fsm
  | _ => True

end

variable {m : Member} {s : Membership}

theorem handleMember_returned_iff (tidy : s.cluster.fsm.Tidy lower) :
    ((handleMember lower m).run s).Returned ↔ Bearable lower m s := by
  unfold handleMember Bearable
  cases m.status with
  | alive => exact handleAliveMember_returned_iff m s
  | none => exact Iff.rfl
  | leaving => exact Iff.rfl
  | left => exact iff_of_true (handleDeregisterMember_returns m s) trivial
  | reap => exact iff_of_true (handleDeregisterMember_returns m s) trivial
  | failed =>
    refine (zoom_returned_iff ..).trans ?_
    cases member : isBroker m.toSerfMember with
    | none =>
      unfold handleFailedMember
      rw [member]
      exact iff_of_true trivial (by simp)
    | some broker =>
      obtain ⟨cause, refused, stopped⟩ | ⟨idx, nodes, index, create, commits, goes, -, -, same⟩ :=
        handleFailedMember_cases member tidy
      · rw [stopped]
        refine iff_of_true trivial fun broker' idx _ commits => ?_
        rw [refused] at commits
        cases commits
      · have equal : Replaceable lower broker.id nodes.values
            { s.cluster.fsm with nodes, index } ↔
            Replaceable lower broker.id (survivors broker.id s.cluster.fsm) s.cluster.fsm := by
          unfold Replaceable
          rw [same]
          exact Iff.rfl
        rw [goes, reassign_returned_iff]
        refine equal.trans ⟨?_, fun all => all broker idx rfl commits⟩
        rintro holds _ _ ⟨⟩ -
        exact holds

/-- An event on the leader returns if and only if its member is a broker that can be replaced. -/
theorem reconcileMember_survives_iff (tidy : s.cluster.fsm.Tidy lower) :
    Survives lower m s ↔ Bearable lower m s := by
  rw [← handleMember_returned_iff tidy, ← attempt_returns_iff]
  constructor
  · rintro ⟨s', ran, -⟩
    obtain ⟨outcome, s'', ran', -⟩ := bind_eq_ok ran
    exact ⟨outcome, s'', ran'⟩
  · rintro ⟨outcome, s', ran⟩
    refine ⟨s', bind_ok ran, fun broker status member some none => ?_⟩
    have bearable := (handleMember_returned_iff tidy).mp ((attempt_returns_iff ..).mp ⟨_, _, ran⟩)
    have last := attempt_state (handleMember lower m) s
    rw [ran, handleMember, status] at last
    simp only [Bearable, status] at bearable
    obtain ⟨cause, -, stopped⟩ | ⟨idx, nodes, index, create, commits, -⟩ :=
      handleFailedMember_cases member tidy
    · obtain rfl : s' = _ := last.trans (congrArg Result.state (zoom_error stopped))
      exact ⟨rfl, rfl⟩
    · obtain ⟨passing, found, nothing⟩ := bearable broker idx member commits
      obtain rfl := Except.ok.inj (found.symm.trans none)
      exact (some.elim (· (nothing rfl).2) (· (nothing rfl).1)).elim

/-- The leader of the brokers that have a partition between them. -/
def governing (fsm : Store) : Membership := { leading with cluster := lone fsm fun _ => .ok 5 }

/-- The broker 1, which leads the partition, fails, and there are others. -/
theorem reconcileMember_survives_first :
    Survives id ⟨firstMember, ascii "one", .failed⟩ (governing replicated) := by
  refine (reconcileMember_survives_iff (Store.Clean.new.applyAll _).tidy).mpr ?_
  intro broker idx member _
  obtain rfl : ⟨1, [], []⟩ = broker := Option.some.inj (Eq.trans (by decide +kernel) member)
  exact ⟨_, rfl, by decide +kernel⟩

/-- A member that is alive and no broker dereferences nil; the failure of the last broker that
passes draws from an empty list. -/
theorem reconcileMember_panics :
    (∃ text s, (reconcileMember id ⟨⟨none⟩, ascii "one", .alive⟩).run leading =
      .error (.panic text) s) ∧
    ∃ text s, (reconcileMember id ⟨firstMember, ascii "one", .failed⟩).run
      (governing (Store.new.applyAll id [(1, .registerNode (passingNode 1)),
        (2, .registerPartition ⟨0, 0, ascii "t", [1], [1], 1, 0, 0, 0, 0⟩)])) =
      .error (.panic text) s :=
  ⟨⟨_, _, rfl⟩, _, _, rfl⟩

end Membership

end Jocko.Broker
