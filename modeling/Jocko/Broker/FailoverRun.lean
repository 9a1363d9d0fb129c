import Jocko.Broker.Failover
import Jocko.Fsm.Placement

namespace Jocko.Broker

open Go MemDB Fsm Protocol Cluster List

/-- Raft commits every write. -/
def Reliable (c : Cluster) : Prop := ∀ i, ∃ idx, c.raft i = .ok idx

/-- The node that the `i`-th of the next random choices takes. -/
def Cluster.chosen (c : Cluster) (passing : List Fsm.Node) (i : Nat) : Option Fsm.Node :=
  passing[c.random (c.drawn + i) % passing.length]?

/-- The registered nodes but the failed one. -/
def survivors (failed : Int32) (s : Store) : List Fsm.Node :=
  s.nodes.values.filter fun n => n.node ≠ failed

variable {lower : Str → Str} {c : Cluster}

theorem raftApply_reliable (lower : Str → Str) (reliable : Reliable c) (command : Command) :
    ∃ idx, (raftApply lower command).run c = .ok (c.fsm.apply lower idx command).2
      { c with
        applied := c.applied + 1
        fsm := (c.fsm.apply lower idx command).1
        committed := c.committed ++ [(idx, command)] } := by
  obtain ⟨idx, next⟩ := reliable c.applied
  exact ⟨idx, raftApply_ok next⟩

variable {passing : List Fsm.Node}

theorem exists_chosen (some : passing ≠ []) (i : Nat) :
    ∃ node, c.chosen passing i = .some node := by
  have inside : c.random (c.drawn + i) % passing.length < passing.length :=
    Nat.mod_lt _ (length_pos_iff.mpr some)
  exact ⟨passing[c.random (c.drawn + i) % passing.length], getElem?_eq_getElem inside⟩

theorem pickNode_chosen {node : Fsm.Node} (some : passing ≠ [])
    (chosen : c.chosen passing 0 = .some node) :
    (pickNode passing).run c = .ok node { c with drawn := c.drawn + 1 } := by
  have drawn : (intn passing.length).run c =
      .ok (c.random c.drawn % passing.length) { c with drawn := c.drawn + 1 } := by
    have count : passing.length ≠ 0 := fun empty => some (length_eq_zero_iff.mp empty)
    simp only [intn, count, ↓reduceIte]
  have here : passing[c.random c.drawn % passing.length]? = .some node := chosen
  unfold pickNode
  rw [bind_ok drawn]
  simp only [here]
  rfl

theorem reassignGroups_ok (some : passing ≠ [])
    (groups : List (Obj Fsm.Group)) (reliable : Reliable c) (tidy : c.fsm.Tidy lower) :
    ∃ groups' index applied committed, (reassignGroups lower passing groups).run c = .ok ()
        { c with
          fsm := { c.fsm with groups := groups', index }
          applied
          committed
          drawn := c.drawn + groups.length } ∧
      Store.Tidy lower { c.fsm with groups := groups', index } := by
  induction groups generalizing c with
  | nil => exact ⟨c.fsm.groups, c.fsm.index, c.applied, c.committed, rfl, tidy⟩
  | cons row groups ih =>
    obtain ⟨node, chosen⟩ := exists_chosen (c := c) some 0
    have edited : (GroupRef.edit ⟨.some row.addr, row.val⟩ fun g =>
        { g with coordinator := node.node }).run { c with drawn := c.drawn + 1 } =
        .ok ⟨.some row.addr, { row.val with coordinator := node.node }⟩
          (editGroup { c with drawn := c.drawn + 1 } row.addr fun g =>
            { g with coordinator := node.node }) := rfl
    have kept : Store.Tidy lower (editGroup { c with drawn := c.drawn + 1 } row.addr fun g =>
        { g with coordinator := node.node }).fsm := ⟨tidy.index, tidy.nodes, tidy.topics, tidy.partitions⟩
    obtain ⟨idx, applied⟩ := raftApply_reliable lower
      (c := editGroup { c with drawn := c.drawn + 1 } row.addr fun g =>
        { g with coordinator := node.node }) reliable
      (.registerGroup { row.val with coordinator := node.node })
    obtain ⟨groups', index, written, tidy'⟩ := kept.registerGroup idx
      { row.val with coordinator := node.node }
    rw [written] at applied
    unfold reassignGroups
    rw [bind_ok (pickNode_chosen some chosen), bind_ok edited, bind_ok applied]
    obtain ⟨groups'', index', applied', committed', done, tidy''⟩ :=
      ih (c := { c with
        fsm := { c.fsm with groups := groups', index }
        applied := c.applied + 1
        committed := c.committed ++ [(idx, .registerGroup { row.val with coordinator := node.node })]
        drawn := c.drawn + 1 }) reliable tidy'
    refine ⟨groups'', index', applied', committed', ?_, tidy''⟩
    rw [length_cons, Nat.add_comm groups.length 1, ← Nat.add_assoc]
    exact done

/-- What the loop over the partitions leaves in the store: the row of each of them has the next
chosen node as its leader, the other rows are as they were. -/
structure Elected (failed : Int32) (choice : Nat → Option Fsm.Node)
    (partitions : List Fsm.Partition) (s s' : Store) : Prop where
  rows : ∀ i p, partitions[i]? = some p → ∃ node create modify, choice i = some node ∧
    partitionKind.row? s' (partitionKey p.topic p.partition) = some { reassigned failed p node with
      createIndex := create
      modifyIndex := modify }
  others : ∀ k, (∀ p ∈ partitions, partitionKey p.topic p.partition ≠ k) →
    partitionKind.row? s' k = partitionKind.row? s k

theorem reassignPartitions_ok (failed : Int32) (some : passing ≠ [])
    (partitions : List Fsm.Partition) (reliable : Reliable c) (tidy : c.fsm.Tidy lower)
    (named : ∀ p ∈ partitions, p.topic ≠ [])
    (distinct : (partitions.map fun p => partitionKey p.topic p.partition).Nodup) :
    ∃ rows index applied committed,
      (reassignPartitions lower failed passing partitions).run c =
        .ok (partitions.map reassignedState) { c with
          fsm := { c.fsm with partitions := rows, index }
          applied
          committed
          drawn := c.drawn + partitions.length } ∧
      Store.Tidy lower { c.fsm with partitions := rows, index } ∧
      Elected failed (c.chosen passing) partitions c.fsm
        { c.fsm with partitions := rows, index } := by
  induction partitions generalizing c with
  | nil =>
    exact ⟨c.fsm.partitions, c.fsm.index, c.applied, c.committed, rfl, tidy, nofun, fun _ _ => rfl⟩
  | cons p partitions ih =>
    obtain ⟨new, distinct'⟩ := nodup_cons.mp distinct
    obtain ⟨node, chosen⟩ := exists_chosen (c := c) some 0
    obtain ⟨idx, applied⟩ := raftApply_reliable lower
      (c := { c with drawn := c.drawn + 1 }) reliable (.registerPartition (reassigned failed p node))
    obtain ⟨rows, index, create, written, tidy', byKey⟩ := tidy.registerPartition idx
      (p := reassigned failed p node) (named p (mem_cons_self ..))
    rw [written] at applied
    unfold reassignPartitions
    rw [bind_ok (pickNode_chosen some chosen), bind_ok applied]
    obtain ⟨rows', index', applied', committed', done, tidy'', elected⟩ :=
      ih (c := { c with
        fsm := { c.fsm with partitions := rows, index }
        applied := c.applied + 1
        committed := c.committed ++ [(idx, .registerPartition (reassigned failed p node))]
        drawn := c.drawn + 1 }) reliable tidy'
        (fun p inside => named p (mem_cons_of_mem _ inside)) distinct'
    refine ⟨rows', index', applied', committed', ?_, tidy'', fun i q here => ?_, fun k other => ?_⟩
    · rw [bind_ok done, length_cons, Nat.add_comm partitions.length 1, ← Nat.add_assoc]
      rfl
    · cases i with
      | zero =>
        obtain rfl := Option.some.inj here
        refine ⟨node, create, idx, chosen, ?_⟩
        rw [elected.others, byKey]
        · exact if_pos rfl
        · intro q inside same
          exact new (mem_map.mpr ⟨q, inside, same⟩)
      | succ i =>
        obtain ⟨node', create', modify', chosen', row⟩ := elected.rows i q here
        refine ⟨node', create', modify', ?_, row⟩
        rw [← chosen']
        simp only [Cluster.chosen, Nat.add_assoc, Nat.add_comm 1 i]
    · rw [elected.others k fun q inside => other q (mem_cons_of_mem _ inside), byKey]
      exact if_neg (other p (mem_cons_self ..)).symm

theorem reach_cases (c : Cluster) : reach.run c = .ok () { c with dialled := c.dialled + 1 } ∨
    ∃ cause, reach.run c = .error (.err cause) { c with dialled := c.dialled + 1 } := by
  cases outcome : c.network c.dialled with
  | none => exact .inl (by simp only [reach, outcome])
  | some cause => exact .inr ⟨cause, by simp only [reach, outcome]⟩

/-- A step that tells brokers the request, and nothing else. -/
def Tells (req : LeaderAndISRRequest) (c c' : Cluster) : Prop :=
  ∃ dialled told, c' = { c with dialled, sent := c.sent ++ told } ∧ ∀ e ∈ told, e.2 = req

instance (req : LeaderAndISRRequest) : IsPreorder Cluster (Tells req) where
  refl c := ⟨c.dialled, [], by rw [List.append_nil], by simp⟩
  trans := by
    rintro a b c ⟨first, told, same, all⟩ ⟨second, told', same', all'⟩
    refine ⟨second, told ++ told', by rw [same', same, List.append_assoc], fun e inside => ?_⟩
    rcases List.mem_append.mp inside with here | there
    · exact all e here
    · exact all' e there

theorem reach_tells (req : LeaderAndISRRequest) : reach.Moves (Tells req) := by
  intro c
  refine ⟨c.dialled + 1, [], ?_, by simp⟩
  rcases reach_cases c with ok | ⟨cause, failed⟩
  · rw [ok, append_nil]
    rfl
  · rw [failed, append_nil]
    rfl

theorem sendLeaderAndISR_tells (addr : Str) (req : LeaderAndISRRequest) :
    (sendLeaderAndISR addr req).Moves (Tells req) := by
  refine .bind (fun c => ?_) fun _ => reach_tells req
  exact ⟨c.dialled, [(addr, req)], rfl, by simp⟩

theorem tellBrokers_tells (req : LeaderAndISRRequest) (nodes : List Fsm.Node) :
    (tellBrokers req nodes).Moves (Tells req) := by
  induction nodes with
  | nil => exact .pure _
  | cons n nodes ih =>
    refine .bind (.of_unchanged fun c => rfl) fun found => ?_
    split
    · exact ih
    · refine .bind (reach_tells req) fun _ => ?_
      exact .bind (sendLeaderAndISR_tells _ req) fun _ => ih

variable {failed : Int32}

theorem passingNodes_filter {key : Bytes} {entries : List (Bytes × Fsm.Node)}
    (critical : ∀ e ∈ entries, e.1 = key → ∃ check, e.2.check = some check ∧
      check.status ≠ healthPassing) : passingNodes failed (entries.map Prod.snd) =
      passingNodes failed ((entries.filter fun e => e.1 ≠ key).map Prod.snd) := by
  induction entries with
  | nil => rfl
  | cons e entries ih =>
    have rest := ih fun e inside => critical e (mem_cons_of_mem _ inside)
    by_cases here : e.1 = key
    · obtain ⟨check, found, status⟩ := critical e (mem_cons_self ..) here
      rw [filter_cons_of_neg (by simpa using here), ← rest, map_cons, passingNodes, found]
      cases passingNodes failed (entries.map Prod.snd) with
      | error why => rfl
      | ok passing =>
        simp only [status, false_and, ↓reduceIte, bind, Except.bind]
        rfl
    · rw [filter_cons_of_pos (by simpa using here), map_cons, map_cons, passingNodes,
        passingNodes, rest]

theorem passingNodes_subset {nodes : List Fsm.Node}
    (found : passingNodes failed nodes = .ok passing) : passing ⊆ nodes := by
  induction nodes generalizing passing with
  | nil =>
    obtain rfl := Except.ok.inj found
    exact Subset.refl _
  | cons n nodes ih =>
    unfold passingNodes at found
    split at found
    · cases found
    · cases later : passingNodes failed nodes with
      | error why =>
        rw [later] at found
        cases found
      | ok rest =>
        rw [later] at found
        simp only [bind, Except.bind] at found
        split at found
        · obtain rfl := Except.ok.inj found
          exact cons_subset_cons n (ih later)
        · obtain rfl := Except.ok.inj found
          exact subset_cons_of_subset n (ih later)

/-- The failed node has just been registered as critical, so only the others can pass. -/
theorem passingNodes_registered {s : Store} {nodes : Shared MemDB.Tree NodeIndex Fsm.Node}
    {critical : Fsm.Node} {check : HealthCheck} (tidy : s.Tidy lower)
    (checked : critical.check = some check) (status : check.status ≠ healthPassing)
    (byKey : ∀ k, (Radix.get? nodes.rows.id k).map Obj.val =
      if k = intKey failed then some critical else (Radix.get? s.nodes.rows.id k).map Obj.val) :
    passingNodes failed nodes.values =
      passingNodes failed (survivors failed s) := by
  have after : Radix.map Obj.val nodes.rows.id =
      Radix.insert (Radix.map Obj.val s.nodes.rows.id) (intKey failed) critical := by
    apply Radix.ext_get?
    intro k
    rw [Radix.get?_map, Radix.get?_insert, Radix.get?_map, byKey]
  have same (t : MemDB.Tree Fsm.Node) : Radix.erase (Radix.insert t (intKey failed) critical)
      (intKey failed) = Radix.erase t (intKey failed) := by
    apply Radix.ext_get?
    intro k
    rw [Radix.get?_erase, Radix.get?_erase, Radix.get?_insert]
    split <;> rfl
  have others : Radix.values (Radix.erase (Radix.map Obj.val s.nodes.rows.id) (intKey failed)) =
      survivors failed s := by
    simp only [Radix.values, Radix.entries_erase, Radix.entries_map, survivors, filter_map, map_map]
    refine congrArg _ (filter_congr fun e inside => ?_)
    have primary := tidy.nodes.exact.id e.1 e.2 (Radix.get?_eq_some.mpr inside)
    have key : e.1 = intKey e.2.val.node := (Option.some.inj primary).symm
    simp only [Function.comp_apply, decide_eq_decide, key]
    exact not_congr ⟨intKey_inj, congrArg intKey⟩
  rw [Shared.values, ← Radix.values_map, after, ← others, ← same]
  apply passingNodes_filter
  intro e inside here
  have found := Radix.get?_eq_some.mpr inside
  rw [here, Radix.get?_insert, if_pos rfl] at found
  obtain rfl := Option.some.inj found
  exact ⟨check, checked, status⟩

/-- The groups that the failed broker coordinates. -/
def coordinated (lower : Str → Str) (failed : Int32) (s : Store) : List (Obj Fsm.Group) :=
  (s.getGroupsByCoordinator lower failed).2

/-- The partitions that the failed broker leads. -/
def led (lower : Str → Str) (failed : Int32) (s : Store) : List Fsm.Partition :=
  (s.partitionsByLeader lower failed).2.map Obj.val

theorem led_named (tidy : c.fsm.Tidy lower) (failed : Int32) :
    ∀ p ∈ led lower failed c.fsm, p.topic ≠ [] := by
  intro p inside
  exact (tidy.partition_key (tidy.mem_partitionsByLeader.mp inside).1).1

theorem led_nodup (tidy : c.fsm.Tidy lower) (failed : Int32) :
    ((led lower failed c.fsm).map fun p => partitionKey p.topic p.partition).Nodup := by
  rw [led, map_map]
  exact tidy.nodup_partitionsByLeader failed

theorem reassign_passing
    (found : passingNodes failed c.fsm.nodes.values = .ok passing) :
    (reassign lower failed).run c = (do
      reassignGroups lower passing (coordinated lower failed c.fsm)
      let states ← reassignPartitions lower failed passing (led lower failed c.fsm)
      tellBrokers ⟨0, ← configID, 0, states, []⟩ passing : Call Cluster Unit).run c := by
  have read : state.run c = .ok c.fsm c := rfl
  have passed : (lift (passingNodes failed ((c.fsm.getNodes lower).2.map Obj.val))).run c =
      .ok passing c := congrArg (fun result => (lift result).run c) found
  exact (bind_ok read).trans (bind_ok passed)

theorem reassign_refused {why : Stop}
    (found : passingNodes failed c.fsm.nodes.values = .error why) :
    (reassign lower failed).run c = .error why c := by
  have read : state.run c = .ok c.fsm c := rfl
  have stopped : (lift (passingNodes failed ((c.fsm.getNodes lower).2.map Obj.val))).run c =
      .error why c := congrArg (fun result => (lift result).run c) found
  exact (bind_ok read).trans (bind_error stopped)

/-- Without a node that passes, the partitions stay as they are. -/
theorem reassign_stuck (lower : Str → Str)
    (none : ∀ passing, passingNodes failed c.fsm.nodes.values = .ok passing →
      passing = []) :
    ∃ dialled sent, ((reassign lower failed).run c).state = { c with dialled, sent } := by
  cases found : passingNodes failed c.fsm.nodes.values with
  | error why => exact ⟨c.dialled, c.sent, congrArg Result.state (reassign_refused found)⟩
  | ok passing =>
    obtain rfl := none passing found
    rw [reassign_passing found]
    cases coordinated lower failed c.fsm with
    | cons row groups => exact ⟨c.dialled, c.sent, rfl⟩
    | nil => cases led lower failed c.fsm <;> exact ⟨c.dialled, c.sent, rfl⟩

/-- With a node that passes, every partition of the failed broker gets a leader. -/
theorem reassign_elects (some : passing ≠ [])
    (found : passingNodes failed c.fsm.nodes.values = .ok passing)
    (reliable : Reliable c) (tidy : c.fsm.Tidy lower) :
    ∃ rows groups index applied committed drawn dialled sent,
      ((reassign lower failed).run c).state = { c with
        fsm := { c.fsm with partitions := rows, groups, index }
        applied
        committed
        drawn
        dialled
        sent } ∧
      Store.Tidy lower { c.fsm with partitions := rows, groups, index } ∧
      Elected failed (fun i => c.chosen passing ((coordinated lower failed c.fsm).length + i))
        (led lower failed c.fsm) c.fsm { c.fsm with partitions := rows, groups, index } := by
  obtain ⟨groups, index, applied, committed, done, tidy'⟩ :=
    reassignGroups_ok some (coordinated lower failed c.fsm) reliable tidy
  obtain ⟨rows, index', applied', committed', done', tidy'', elected⟩ :=
    reassignPartitions_ok failed some (led lower failed c.fsm)
      (c := { c with
        fsm := { c.fsm with groups, index }
        applied
        committed
        drawn := c.drawn + (coordinated lower failed c.fsm).length }) reliable tidy'
      (led_named tidy failed) (led_nodup tidy failed)
  have whole := (reassign_passing found).trans ((bind_ok done).trans (bind_ok done'))
  obtain ⟨dialled, told, ends, -⟩ := tellBrokers_tells
    ⟨0, c.id, 0, (led lower failed c.fsm).map reassignedState, []⟩ passing _
  refine ⟨rows, groups, index', applied', committed', _, dialled, c.sent ++ told,
    (congrArg Result.state whole).trans ends, tidy'', fun i p here => ?_, elected.others⟩
  obtain ⟨node, create, modify, chosen, row⟩ := elected.rows i p here
  refine ⟨node, create, modify, ?_, row⟩
  rw [← chosen]
  simp only [Cluster.chosen, Nat.add_assoc]

/-- The cluster once raft has committed a change of the nodes. -/
def Cluster.marked (c : Cluster) (entry : UInt64 × Command) (nodes : Shared MemDB.Tree NodeIndex Fsm.Node)
    (index : Table MemDB.Tree Empty IndexEntry) : Cluster :=
  { c with
    applied := c.applied + 1
    fsm := { c.fsm with nodes, index }
    committed := c.committed ++ [entry] }

/-- The failure of a broker is not written, or its node is critical when the partitions are
reassigned. -/
theorem handleFailedMember_cases {m : SerfMember} {broker : MetaBroker}
    (member : isBroker m = some broker) (tidy : c.fsm.Tidy lower) :
    (∃ cause, c.raft c.applied = .error cause ∧ (handleFailedMember lower m).run c =
      .error (.err cause) { c with applied := c.applied + 1 }) ∨
    ∃ idx nodes index create, c.raft c.applied = .ok idx ∧ (handleFailedMember lower m).run c =
        (reassign lower broker.id).run
          (c.marked (idx, .registerNode (criticalNode m broker)) nodes index) ∧
      Store.Tidy lower { c.fsm with nodes, index } ∧
      (Radix.get? nodes.rows.id (intKey broker.id)).map Obj.val = some { criticalNode m broker with
        createIndex := create
        modifyIndex := idx } ∧
      passingNodes broker.id nodes.values =
        passingNodes broker.id (survivors broker.id c.fsm) := by
  unfold handleFailedMember
  rw [member]
  dsimp only
  cases next : c.raft c.applied with
  | error cause => exact .inl ⟨cause, rfl, bind_error (raftApply_error next)⟩
  | ok idx =>
    obtain ⟨nodes, index, create, written, tidy', byKey⟩ :=
      tidy.registerNode idx (criticalNode m broker)
    have applied : (raftApply lower (.registerNode (criticalNode m broker))).run c = _ :=
      raftApply_ok next
    rw [written] at applied
    exact .inr ⟨idx, nodes, index, create, rfl, bind_ok applied, tidy',
      (byKey _).trans (if_pos rfl),
      passingNodes_registered tidy rfl (show healthCritical ≠ healthPassing by decide) byKey⟩

/-- What the failure of a broker does to the store: the topics stay, and its partitions get
leaders if there is a node that passes. -/
theorem handleFailedMember_state {m : SerfMember} {broker : MetaBroker}
    (member : isBroker m = some broker) (reliable : Reliable c) (tidy : c.fsm.Tidy lower) :
    ∃ fsm applied committed drawn dialled sent,
      ((handleFailedMember lower m).run c).state =
        { c with fsm, applied, committed, drawn, dialled, sent } ∧
      fsm.Tidy lower ∧ fsm.topics = c.fsm.topics ∧
      ((∃ passing, passingNodes broker.id (survivors broker.id c.fsm) = .ok passing ∧
          passing ≠ [] ∧
          Elected broker.id
            (fun i => c.chosen passing ((coordinated lower broker.id c.fsm).length + i))
            (led lower broker.id c.fsm) c.fsm fsm) ∨
        (∀ passing, passingNodes broker.id (survivors broker.id c.fsm) = .ok passing →
          passing = []) ∧ fsm.partitions = c.fsm.partitions) := by
  obtain ⟨cause, refused, -⟩ | ⟨idx, nodes, index, create, -, goes, tidy', -, same⟩ :=
    handleFailedMember_cases member tidy
  · obtain ⟨idx, commits⟩ := reliable c.applied
    rw [refused] at commits
    cases commits
  rw [goes]
  by_cases passes : ∃ passing, passingNodes broker.id (survivors broker.id c.fsm) = .ok passing ∧
      passing ≠ []
  · obtain ⟨passing, found, some⟩ := passes
    obtain ⟨rows, groups, index', applied', committed', drawn', dialled', sent', ends, tidy'', elected⟩ :=
      reassign_elects (c := c.marked (idx, .registerNode (criticalNode m broker)) nodes index)
        some (same.trans found) reliable tidy'
    exact ⟨_, _, _, _, _, _, ends, tidy'', rfl,
      .inl ⟨passing, found, some, elected.rows, elected.others⟩⟩
  · have none : ∀ passing, passingNodes broker.id (survivors broker.id c.fsm) = .ok passing →
        passing = [] := by
      intro passing found
      exact Classical.not_not.mp fun some => passes ⟨passing, found, some⟩
    obtain ⟨dialled', sent', ends⟩ := reassign_stuck lower
      (c := c.marked (idx, .registerNode (criticalNode m broker)) nodes index)
      (fun passing found => none passing (same.symm.trans found))
    exact ⟨_, _, _, _, _, _, ends, tidy', rfl, .inr ⟨none, rfl⟩⟩

end Jocko.Broker
