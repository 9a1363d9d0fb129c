import Jocko.Broker.Assignment
import Jocko.Broker.Handlers
import Jocko.Broker.Tenants

namespace Jocko.Broker

open Go MemDB Fsm Protocol Cluster List

/-- The broker with another random source. -/
def seeded (b : Broker) (random : Nat → Nat) : Broker :=
  { b with cluster := { b.cluster with random } }

/-- The ring knows the broker by its id, and its address can be read. -/
def Addressed (c : Cluster) (id : Int32) : Prop :=
  ∃ broker place, c.lookup.idToBroker.lookup id = some broker ∧ broker.hostPort = .ok place

section

variable (lower : Str → Str) (hash : Bytes → UInt64)

/-- The number of the key's partition among those of the offsets topic. -/
def keyPartition (key : Str) (topic : Fsm.Topic) : Int32 :=
  Int32.ofNat ((hash key).toNat % topic.partitions.entries.length)

/-- The response names the broker that leads the partition of the key. -/
def LeadsKey (key : Str) (c : Cluster) (res : FindCoordinatorResponse) : Prop :=
  ∃ topic p broker host port, (c.fsm.getTopic lower offsetsTopicName).2 = some topic ∧
    (c.fsm.getPartition lower offsetsTopicName (keyPartition hash key topic.val)).2 = some p ∧
    c.lookup.idToBroker.lookup p.val.leader = some broker ∧
    broker.hostPort = .ok (host, port) ∧ res.coordinator = ⟨broker.id, host, port⟩

/-- The handler returns the coordinator of the key, or an error code. -/
def Coordinates (factor : Int16) (req : FindCoordinatorRequest) (b : Broker) : Prop :=
  ∃ res b', (handleFindCoordinator lower hash factor req).run b = .ok res b' ∧
    (res.errorCode ≠ 0 ∨ LeadsKey lower hash req.coordinatorKey b'.cluster res)

/-- The offsets topic has partitions, and the leader of the key's one is in the ring; or it has
still to be created, and there are too few brokers for it, or raft refuses one of the 51 writes,
or all the brokers it can be given to are known. -/
def Coordinable (factor : Int16) (key : Str) (c : Cluster) : Prop :=
  match (c.fsm.getTopic lower offsetsTopicName).2 with
  | some topic => topic.val.partitions.entries.length ≠ 0 ∧ ∀ p,
      (c.fsm.getPartition lower offsetsTopicName (keyPartition hash key topic.val)).2 = some p →
      Addressed c p.val.leader
  | none => (c.lookup.addressToBroker.length : Int) < factor.toInt ∨
      c.lookup.addressToBroker ≠ [] ∧
        ((∃ i < 51, ∃ cause, c.raft (c.applied + i) = .error cause) ∨
          ∀ e ∈ c.lookup.addressToBroker, Addressed c e.2.id)

end

variable {lower : Str → Str} {hash : Bytes → UInt64} {factor : Int16} {b b' : Broker}

theorem coordinates_of_topic {req : FindCoordinatorRequest} {topic : Fsm.Topic} {row' : Obj Fsm.Topic}
    (offsets : (offsetsTopic lower factor).run b = .ok (some topic) b')
    (stored : (b'.cluster.fsm.getTopic lower offsetsTopicName).2 = some row')
    (same : row'.val.partitions = topic.partitions) :
    Coordinates lower hash factor req b ↔ topic.partitions.entries.length ≠ 0 ∧
      ∀ p, (b'.cluster.fsm.getPartition lower offsetsTopicName
          (keyPartition hash req.coordinatorKey topic)).2 = some p →
        Addressed b'.cluster p.val.leader := by
  have number : keyPartition hash req.coordinatorKey row'.val =
      keyPartition hash req.coordinatorKey topic := by rw [keyPartition, same, keyPartition]
  have read : (onCluster state).run b' = .ok b'.cluster.fsm b' := rfl
  unfold Coordinates handleFindCoordinator
  simp only [bind_ok offsets]
  by_cases none : topic.partitions.entries.length = 0
  · simp [none, stop]
  simp only [none, ↓reduceIte, bind_ok read, ne_eq, not_false_eq_true, true_and]
  cases found : (b'.cluster.fsm.getPartition lower offsetsTopicName
      (keyPartition hash req.coordinatorKey topic)).2 with
  | none =>
    rw [keyPartition] at found
    simp only [found]
    exact iff_of_true ⟨_, _, rfl, .inl (show ErrorCode.unknownTopicOrPartition.code ≠ 0 by decide)⟩
      (by simp)
  | some p =>
    have asked : (onCluster (brokerByID p.val.leader)).run b' =
        .ok (b'.cluster.lookup.idToBroker.lookup p.val.leader) b' := rfl
    have row := found
    rw [keyPartition] at found
    simp only [found, bind_ok asked, Option.some.injEq, forall_eq']
    cases known : b'.cluster.lookup.idToBroker.lookup p.val.leader with
    | none => simp [Addressed, known, stop]
    | some broker =>
      cases address : broker.hostPort with
      | error why => simp [Addressed, known, address, lift, bind]
      | ok place =>
        have split : (lift broker.hostPort : Call Broker _).run b' = .ok place b' := by
          rw [address]
          rfl
        simp only [bind_ok split]
        refine iff_of_true ⟨_, b', rfl, .inr ?_⟩ ⟨broker, place, known, address⟩
        exact ⟨row', p, broker, place.1, place.2, stored, number ▸ row, known, address, rfl⟩

/-- Once all partitions are registered, each row under one of their keys has the leader of one. -/
theorem applyAll_leaders {ps : List Fsm.Partition} {s : Store} {entries : List (UInt64 × Command)}
    (tidy : s.Tidy lower) (named : ∀ p ∈ ps, p.topic ≠ [])
    (commands : entries.map Prod.snd = ps.map .registerPartition) (k : Bytes) :
    (∃ p ∈ ps, k = partitionKey p.topic p.partition ∧
      (partitionKind.row? (s.applyAll lower entries) k).map Fsm.Partition.leader = some p.leader) ∨
    (∀ p ∈ ps, k ≠ partitionKey p.topic p.partition) ∧
      partitionKind.row? (s.applyAll lower entries) k = partitionKind.row? s k := by
  induction ps generalizing s entries with
  | nil =>
    obtain rfl := map_eq_nil_iff.mp commands
    exact .inr ⟨by simp, rfl⟩
  | cons p ps ih =>
    obtain ⟨first, others⟩ := forall_mem_cons.mp named
    obtain ⟨⟨idx, command⟩, entries, rfl, rfl, rest⟩ := map_eq_cons_iff.mp commands
    obtain ⟨partitions, index, create, written, tidy', byKey⟩ := tidy.registerPartition idx first
    simp only [Store.applyAll, foldl_cons, written] at ih ⊢
    rcases ih tidy' others rest with ⟨q, inside, later⟩ | ⟨apart, same⟩
    · exact .inl ⟨q, mem_cons_of_mem _ inside, later⟩
    · by_cases here : k = partitionKey p.topic p.partition
      · refine .inl ⟨p, mem_cons_self .., here, ?_⟩
        rw [same, byKey, if_pos here]
        rfl
      · rw [same, byKey, if_neg here]
        exact .inr ⟨forall_mem_cons.mpr ⟨here, apart⟩, rfl⟩

/-- The map has an entry for each partition, if their ids differ. -/
theorem length_assignment {ps : List Fsm.Partition} {m : List (Int32 × List Int32)}
    (distinct : (m.map Prod.fst ++ ps.map Fsm.Partition.id).Nodup) :
    (ps.foldl (fun m p => (p.id, p.ar) :: m.filter fun e => e.1 ≠ p.id) m).length =
      m.length + ps.length := by
  induction ps generalizing m with
  | nil => rfl
  | cons p ps ih =>
    have apart := distinct.perm perm_middle
    have kept : m.filter (fun e => decide (e.1 ≠ p.id)) = m := by
      refine filter_eq_self.mpr fun e inside => ?_
      have other : e.1 ≠ p.id := fun same => (nodup_cons.mp apart).1
        (mem_append_left _ (same ▸ mem_map_of_mem inside))
      simpa using other
    rw [foldl_cons, kept, ih (m := (p.id, p.ar) :: m) apart, length_cons, length_cons]
    omega

/-- Writing a topic to raft: once it is committed, the topic has a row with its partitions. -/
theorem raftApply_topic (tidy : b.cluster.fsm.Tidy lower) {topic : Fsm.Topic}
    (named : topic.topic ≠ []) :
    ∃ outcome c, (attempt (onCluster (raftApply lower (.registerTopic topic)))).run b =
        .ok outcome { b with cluster := c } ∧ c.lookup = b.cluster.lookup ∧
      c.raft = b.cluster.raft ∧ c.applied = b.cluster.applied + 1 ∧
      match outcome with
      | .error cause => b.cluster.raft b.cluster.applied = .error cause
      | .ok _ => (∃ idx, b.cluster.raft b.cluster.applied = .ok idx) ∧ c.fsm.Tidy lower ∧ ∃ row,
        (c.fsm.getTopic lower topic.topic).2 = some row ∧ row.val.partitions = topic.partitions := by
  cases next : b.cluster.raft b.cluster.applied with
  | error cause =>
    exact ⟨_, _, attempt_err (onCluster_error (raftApply_error next)), rfl, rfl, rfl, rfl⟩
  | ok idx =>
    obtain ⟨topics, index, create, written, tidy', byKey⟩ := tidy.registerTopic idx named
    have applied : (raftApply lower (.registerTopic topic)).run b.cluster = _ :=
      raftApply_ok next
    rw [written] at applied
    refine ⟨_, _, attempt_ok (onCluster_ok applied), rfl, rfl, rfl, ⟨idx, rfl⟩, tidy', ?_⟩
    have found := byKey (lowerKey lower topic.topic)
    rw [if_pos rfl] at found
    obtain ⟨row, here, same⟩ := Option.map_eq_some_iff.mp found
    refine ⟨row, here, ?_⟩
    rw [same]
    simp only [Topic.configured]
    split <;> rfl

/-- All partitions are registered if and only if raft refuses none of them. -/
theorem createPartitions_returns_iff (lower : Str → Str) (ps : List Fsm.Partition) (c : Cluster) :
    (∃ c', (createPartitions lower ps).run c = .ok () c') ↔
      ∀ i < ps.length, ∃ idx, c.raft (c.applied + i) = .ok idx := by
  induction ps generalizing c with
  | nil => exact iff_of_true ⟨c, rfl⟩ (by simp)
  | cons p ps ih =>
    unfold createPartitions
    cases next : c.raft c.applied with
    | error cause =>
      rw [bind_error (raftApply_error next)]
      refine iff_of_false (by simp) fun all => ?_
      obtain ⟨idx, commits⟩ := all 0 (by simp)
      rw [Nat.add_zero, next] at commits
      cases commits
    | ok idx =>
      rw [bind_ok (raftApply_ok next), ih]
      constructor
      · intro rest i below
        cases i with
        | zero => exact ⟨idx, next⟩
        | succ i =>
          rw [Nat.add_comm i 1, ← Nat.add_assoc]
          exact rest i (Nat.lt_of_succ_lt_succ below)
      · intro all i below
        have later := all (i + 1) (Nat.succ_lt_succ below)
        rwa [Nat.add_comm i 1, ← Nat.add_assoc] at later

variable {ps : List Fsm.Partition} {listed drawn : Nat}

theorem length_made {c c' : Cluster}
    (made : (buildPartitions offsetsTopicName 50 factor).run c = .ok (.ok ps) c') :
    ps.length = 50 := by
  rw [← length_map Fsm.Partition.partition, (buildPartitions_ok made).2]
  rfl

theorem coordinates_of_none {req : FindCoordinatorRequest}
    (offsets : (offsetsTopic lower factor).run b = .ok none b') :
    Coordinates lower hash factor req b := by
  refine ⟨⟨req.apiVersion, 0, ErrorCode.unknown.code, none, ⟨0, [], 0⟩⟩, b', ?_,
    .inl (show ErrorCode.unknown.code ≠ 0 by decide)⟩
  rw [handleFindCoordinator, bind_ok offsets]
  rfl

section

variable (tidy : b.cluster.fsm.Tidy lower)
  (absent : (b.cluster.fsm.getTopic lower offsetsTopicName).2 = none)
  (made : (buildPartitions offsetsTopicName 50 factor).run b.cluster =
    .ok (.ok ps) { b.cluster with listed, drawn })
include tidy absent made

/-- A new offsets topic has 50 partitions with the leaders that were drawn, unless raft refuses
a write. -/
theorem offsetsTopic_created :
    ∃ result b', (offsetsTopic lower factor).run b = .ok result b' ∧
      match result with
      | none => ∃ i < 51, ∃ cause, b.cluster.raft (b.cluster.applied + i) = .error cause
      | some topic => (∀ i < 51, ∃ idx, b.cluster.raft (b.cluster.applied + i) = .ok idx) ∧
          b'.cluster.lookup = b.cluster.lookup ∧ topic.partitions.entries.length = 50 ∧
          (∃ row, (b'.cluster.fsm.getTopic lower offsetsTopicName).2 = some row ∧
            row.val.partitions = topic.partitions) ∧
          ∀ i < 50, ∃ p q, ps[i]? = some q ∧ p.val.leader = q.leader ∧
            (b'.cluster.fsm.getPartition lower offsetsTopicName (Int32.ofNat i)).2 = some p := by
  have read : (onCluster state).run b = .ok b.cluster.fsm b := rfl
  obtain ⟨each, numbers⟩ := buildPartitions_ok made
  have distinct := (buildPartitions_built made).distinct
  have count := length_made made
  let topic : Fsm.Topic := ⟨[], offsetsTopicName,
    some (assignment (ps.map fun p => { p with id := p.partition })), none, true, 0, 0⟩
  obtain ⟨outcome, c, applied, lookup, raft, next, row⟩ :=
    raftApply_topic (b := { b with cluster := { b.cluster with listed, drawn } }) tidy
      (show topic.topic ≠ [] from (by decide : offsetsTopicName ≠ []))
  have all := createPartitions_returns_iff lower ps c
  rw [count, raft, next] at all
  unfold offsetsTopic
  rw [bind_ok read]
  simp only [absent]
  rw [bind_ok (onCluster_ok made)]
  dsimp only
  rw [bind_ok applied]
  obtain ⟨entries, applied, ⟨commands, created⟩ | ⟨-, -, cause, -, failed⟩⟩ :=
    createPartitions_cases lower ps c
  · rw [bind_ok (attempt_ok (onCluster_ok (b := { b with cluster := c }) created))]
    cases outcome with
    | error cause => exact ⟨none, _, rfl, 0, by decide, cause, row⟩
    | ok response =>
      obtain ⟨first, tidy', row, stored, same⟩ := row
      obtain ⟨_, _, done, -⟩ := applyAll_partitions tidy' commands
      have topics := congrArg Store.topics done
      refine ⟨some topic, _, rfl, fun i below => ?_, lookup, ?_, ⟨row, ?_, same⟩, fun i below => ?_⟩
      · cases i with
        | zero => exact first
        | succ i =>
          rw [Nat.add_comm i 1, ← Nat.add_assoc]
          exact all.mp ⟨_, created⟩ i (Nat.lt_of_succ_lt_succ below)
      · refine (length_assignment ?_).trans (by rw [length_map, count]; rfl)
        rwa [map_nil, nil_append, map_map]
      · rw [← stored]
        exact congrArg (fun m : Shared MemDB.Tree Empty Fsm.Topic => Radix.get? m.rows.id _) topics
      · have own : (ps.map Fsm.Partition.partition)[i]? = some (Int32.ofNat i) := by
          rw [numbers, getElem?_map, show (50 : Int32).toInt.toNat = 50 from rfl,
            getElem?_range' below]
          simp
        rw [getElem?_map] at own
        obtain ⟨q, at_i, number⟩ := Option.map_eq_some_iff.mp own
        have inside := mem_of_getElem? at_i
        rcases applyAll_leaders tidy' (fun p inside => by rw [(each p inside).1]; decide)
            commands (partitionKey offsetsTopicName (Int32.ofNat i)) with
          ⟨q', inside', key, leader⟩ | ⟨others, -⟩
        · obtain rfl := inj_on_of_nodup_map distinct inside' inside
            ((partitionKey_inj key).2.symm.trans number.symm)
          obtain ⟨p, here, leads⟩ := Option.map_eq_some_iff.mp leader
          obtain ⟨o, found, rfl⟩ := Option.map_eq_some_iff.mp here
          exact ⟨o, q', at_i, leads, found⟩
        · exact absurd (by rw [(each q inside).1, number]) (others q inside)
  · rw [bind_ok (attempt_err (onCluster_error (b := { b with cluster := c }) failed))]
    refine ⟨none, _, rfl, ?_⟩
    by_contra none
    have commits : ∃ c', (createPartitions lower ps).run c = .ok () c' := by
      refine all.mpr fun i below => ?_
      cases later : b.cluster.raft (b.cluster.applied + 1 + i) with
      | ok idx => exact ⟨idx, rfl⟩
      | error cause =>
        rw [Nat.add_assoc, Nat.add_comm 1 i] at later
        exact absurd ⟨i + 1, by omega, cause, later⟩ none
    obtain ⟨c', returned⟩ := commits
    rw [failed] at returned
    cases returned

/-- Where the topic has to be created, the key's partition comes to a broker that is known, or
raft refuses a write. -/
theorem coordinates_of_made {req : FindCoordinatorRequest} :
    ∃ q, ps[(hash req.coordinatorKey).toNat % 50]? = some q ∧
      (Coordinates lower hash factor req b ↔
        (∃ i < 51, ∃ cause, b.cluster.raft (b.cluster.applied + i) = .error cause) ∨
          Addressed b.cluster q.leader) := by
  have below : (hash req.coordinatorKey).toNat % 50 < ps.length := by
    rw [length_made made]
    exact Nat.mod_lt _ (by decide)
  refine ⟨_, getElem?_eq_getElem below, ?_⟩
  obtain ⟨result, b', offsets, outcome⟩ := offsetsTopic_created tidy absent made
  cases result with
  | none => exact iff_of_true (coordinates_of_none offsets) (.inl outcome)
  | some topic =>
    obtain ⟨commits, lookup, count, ⟨row, stored, same⟩, rows⟩ := outcome
    obtain ⟨p, q, at_key, leader, here⟩ := rows _ (Nat.mod_lt _ (by decide))
    obtain rfl := Option.some.inj ((getElem?_eq_getElem below).symm.trans at_key)
    rw [coordinates_of_topic offsets stored same, keyPartition, count, here,
      or_iff_right, ← leader]
    · simp [Addressed, lookup]
    · rintro ⟨i, inside, cause, refused⟩
      obtain ⟨idx, commits⟩ := commits i inside
      cases refused.symm.trans commits

end

/-- The leader of a partition, if the random source moved the ring for no earlier one. -/
theorem buildLoop_leader {topic : Str} {bs : List MetaBroker} {followers left i place k : Nat}
    {c c' : Cluster} {p : Fsm.Partition}
    (returned : (buildLoop topic bs followers left i place).run c = .ok ps c')
    (here : ps[k]? = some p) (still : ∀ j < k, c.random (c.drawn + j) = 0) :
    p.leader = ringID bs (place + k * followers + c.random (c.drawn + k) % bs.length) := by
  induction left generalizing i place k c c' ps with
  | zero =>
    cases returned
    cases here
  | succ left ih =>
    unfold buildLoop at returned
    obtain ⟨n, c₁, drew, returned⟩ := bind_eq_ok returned
    obtain ⟨rest, c₂, made, returned⟩ := bind_eq_ok returned
    cases returned
    unfold intn at drew
    dsimp only at drew
    split at drew
    · cases drew
    · cases drew
      cases k with
      | zero =>
        cases here
        simp
      | succ k =>
        have first := still 0 (Nat.succ_pos k)
        have later := ih made here fun j below => by
          rw [← still (j + 1) (Nat.succ_lt_succ below), Nat.add_comm j 1, Nat.add_assoc]
        rw [Nat.add_zero] at first
        simp only [first, Nat.zero_mod, Nat.add_zero] at later
        rw [later, Nat.succ_mul, Nat.add_comm k 1, Nat.add_assoc c.drawn,
          Nat.add_comm (k * followers), Nat.add_assoc place]

section

variable {c : Cluster}

theorem buildPartitions_run (topic : Str) (count : Int32) (factor : Int16) (c : Cluster) :
    (buildPartitions topic count factor).run c =
      (if (c.lookup.addressToBroker.length : Int) < factor.toInt then
        return .error .invalidReplicationFactor
      else do
        let ps ← buildLoop topic ((c.order c.listed).pick (c.lookup.addressToBroker.map Prod.snd))
          (factor - 1).toInt.toNat count.toInt.toNat 0 0
        return .ok ps : Call Cluster _).run { c with listed := c.listed + 1 } := by
  have read : brokers.run c = .ok ((c.order c.listed).pick (c.lookup.addressToBroker.map Prod.snd))
      { c with listed := c.listed + 1 } := rfl
  have length := ((c.order c.listed).perm (c.lookup.addressToBroker.map Prod.snd)).length_eq
  rw [length_map] at length
  unfold buildPartitions
  rw [bind_ok read, length]

/-- With too few brokers, or none, no partition is made. -/
theorem buildPartitions_fails (topic : Str) (factor : Int16)
    (fails : (c.lookup.addressToBroker.length : Int) < factor.toInt ∨
      c.lookup.addressToBroker = []) :
    ∃ c', (buildPartitions topic 50 factor).run c = if (c.lookup.addressToBroker.length : Int) <
      factor.toInt then .ok (.error .invalidReplicationFactor) c'
      else .error (.panic "invalid argument to Intn") c' := by
  refine ⟨{ c with listed := c.listed + 1 }, ?_⟩
  rw [buildPartitions_run]
  split
  · rfl
  · rename_i enough
    have empty := ((c.order c.listed).perm (c.lookup.addressToBroker.map Prod.snd)).symm
    rw [fails.resolve_left enough, map_nil] at empty
    rw [fails.resolve_left enough, map_nil, empty.nil_eq.symm]
    rfl

variable (enough : ¬ (c.lookup.addressToBroker.length : Int) < factor.toInt)
  (topic : Str) (count : Int32)
include enough

theorem buildPartitions_made (some : c.lookup.addressToBroker ≠ []) :
    ∃ ps listed drawn, (buildPartitions topic count factor).run c =
      .ok (.ok ps) { c with listed, drawn } := by
  have nonempty : (c.order c.listed).pick (c.lookup.addressToBroker.map Prod.snd) ≠ [] := by
    intro empty
    have listed := ((c.order c.listed).perm _).symm.trans (.of_eq empty)
    exact some (by simpa using listed.eq_nil)
  obtain ⟨ps, c', made⟩ := buildLoop_returns nonempty topic (factor - 1).toInt.toNat
    count.toInt.toNat 0 0 { c with listed := c.listed + 1 }
  have returned := buildPartitions_run topic count factor c
  rw [if_neg enough, bind_ok made] at returned
  obtain ⟨listed, drawn, same⟩ := buildPartitions_draws topic count factor c
  rw [returned] at same
  obtain rfl : c' = { c with listed, drawn } := same
  exact ⟨ps, listed, drawn, returned⟩

/-- Some random source makes a given broker the leader of a given partition. -/
theorem exists_leader (k : Nat) {e : Str × MetaBroker} (known : e ∈ c.lookup.addressToBroker) :
    ∃ random, ∀ ps c', (buildPartitions topic count factor).run { c with random } =
      .ok (.ok ps) c' → ∀ p : Fsm.Partition, ps[k]? = some p → p.leader = e.2.id := by
  have inside : e.2 ∈ (c.order c.listed).pick (c.lookup.addressToBroker.map Prod.snd) :=
    ((c.order c.listed).perm _).mem_iff.mpr (mem_map_of_mem known)
  obtain ⟨t, at_t⟩ := mem_iff_getElem?.mp inside
  have below := (List.getElem?_eq_some_iff.mp at_t).1
  obtain ⟨random, at_k, still⟩ : ∃ random : Nat → Nat, random (c.drawn + k) =
      t + k * (factor - 1).toInt.toNat *
        (((c.order c.listed).pick (c.lookup.addressToBroker.map Prod.snd)).length - 1) ∧
      ∀ j < k, random (c.drawn + j) = 0 :=
    ⟨Function.update (fun _ => 0) (c.drawn + k) _, Function.update_self ..,
      fun j before => Function.update_of_ne (by omega) ..⟩
  refine ⟨random, fun ps c' returned p here => ?_⟩
  rw [buildPartitions_run, if_neg enough] at returned
  obtain ⟨ps', c₁, made, returned⟩ := bind_eq_ok returned
  cases returned
  rw [buildLoop_leader made here still]
  dsimp only
  rw [at_k]
  generalize (c.order c.listed).pick (c.lookup.addressToBroker.map Prod.snd) = bs at at_t below ⊢
  have turn (a : Nat) : (a + (t + a * (bs.length - 1))) % bs.length = t := by
    obtain ⟨n, size⟩ := Nat.exists_eq_add_of_lt (Nat.zero_lt_of_lt below)
    have all : a + (t + a * (bs.length - 1)) = t + a * bs.length := by
      rw [size, Nat.zero_add, Nat.add_sub_cancel, Nat.mul_succ]
      omega
    rw [all, Nat.add_mul_mod_self_right, Nat.mod_eq_of_lt below]
  rw [Nat.zero_add, ringID, Nat.add_mod_mod, turn, at_t]
  rfl

end

/-- The coordinator of a key, or an error, whatever the random source gives, if and only if the
brokers concerned are known, where it comes to them. -/
theorem findCoordinator_coordinates_iff (hash : Bytes → UInt64) (factor : Int16)
    (req : FindCoordinatorRequest) (tidy : b.cluster.fsm.Tidy lower) :
    (∀ random, Coordinates lower hash factor req (b.seeded random)) ↔
      Coordinable lower hash factor req.coordinatorKey b.cluster := by
  have read (random : Nat → Nat) : (onCluster state).run (b.seeded random) =
      .ok b.cluster.fsm (b.seeded random) := rfl
  unfold Coordinable
  cases found : (b.cluster.fsm.getTopic lower offsetsTopicName).2 with
  | some row =>
    have offsets (random : Nat → Nat) : (offsetsTopic lower factor).run (b.seeded random) =
        .ok (some row.val) (b.seeded random) := by
      unfold offsetsTopic
      rw [bind_ok (read random)]
      simp only [found]
      rfl
    exact ⟨fun all => (coordinates_of_topic (offsets b.cluster.random) found rfl).mp (all _),
      fun known random => (coordinates_of_topic (offsets random) found rfl).mpr known⟩
  | none =>
    by_cases few : (b.cluster.lookup.addressToBroker.length : Int) < factor.toInt
    · refine iff_of_true (fun random => ?_) (.inl few)
      obtain ⟨c, made⟩ := buildPartitions_fails (c := (b.seeded random).cluster) offsetsTopicName
        factor (.inl few)
      have offsets : (offsetsTopic lower factor).run (b.seeded random) =
          .ok none { b.seeded random with cluster := c } := by
        unfold offsetsTopic
        rw [bind_ok (read random)]
        simp only [found]
        exact bind_ok (onCluster_ok (made.trans (if_pos few)))
      exact coordinates_of_none offsets
    by_cases none : b.cluster.lookup.addressToBroker = []
    · refine iff_of_false (fun all => ?_) (by simpa [none] using few)
      obtain ⟨c, made⟩ := buildPartitions_fails (c := (b.seeded b.cluster.random).cluster)
        offsetsTopicName factor (.inr none)
      have stops : (offsetsTopic lower factor).run (b.seeded b.cluster.random) =
          .error (.panic "invalid argument to Intn")
            { b.seeded b.cluster.random with cluster := c } := by
        unfold offsetsTopic
        rw [bind_ok (read b.cluster.random)]
        simp only [found]
        exact bind_error (onCluster_error (made.trans (if_neg few)))
      obtain ⟨res, b', returned, -⟩ := all b.cluster.random
      rw [handleFindCoordinator, bind_error stops] at returned
      cases returned
    dsimp only
    rw [or_iff_right few, and_iff_right none]
    have built random := buildPartitions_made (c := (b.seeded random).cluster) few
      offsetsTopicName 50 none
    constructor
    · intro all
      by_contra unknown
      obtain ⟨commits, lost⟩ := not_or.mp unknown
      obtain ⟨e, known, lost⟩ : ∃ e ∈ b.cluster.lookup.addressToBroker,
          ¬ Addressed b.cluster e.2.id := by simpa using lost
      obtain ⟨random, leads⟩ := exists_leader few offsetsTopicName 50
        ((hash req.coordinatorKey).toNat % 50) known
      obtain ⟨ps, listed, drawn, made⟩ := built random
      obtain ⟨q, at_key, known⟩ := coordinates_of_made (b := b.seeded random) tidy found made
      have reached := (known.mp (all random)).resolve_left commits
      rw [leads _ _ made q at_key] at reached
      exact lost reached
    · intro known random
      obtain ⟨ps, listed, drawn, made⟩ := built random
      obtain ⟨q, at_key, enough⟩ := coordinates_of_made (b := b.seeded random) tidy found made
      refine enough.mpr (known.imp_right fun known => ?_)
      obtain ⟨-, -, -, nonempty, place, -, onRing⟩ :=
        (buildPartitions_ok made).1 q (mem_of_getElem? at_key)
      have listed := ringID_mem nonempty place
      rw [← onRing, mem_map] at listed
      obtain ⟨x, among, id⟩ := listed
      obtain ⟨e, inside, rfl⟩ := mem_map.mp (((b.cluster.order _).perm _).mem_iff.mp among)
      rw [← id]
      exact known e inside

/-- A client has created the offsets topic with `count` partitions, on the brokers of the ring. -/
def offsetsCreated (count : Int32) : Broker :=
  ((createTopic id ⟨offsetsTopicName, count, 1, none, none⟩).run
    (started { connected Store.new with lookup := ⟨[(ascii "r1", ⟨1, ascii "r1", ascii "h:9"⟩)],
      [(1, ⟨1, ascii "r1", ascii "h:9"⟩)]⟩ })).state

/-- With one partition its leader coordinates every group. -/
theorem findCoordinator_coordinates_created :
    (offsetsCreated 1).cluster.fsm.Tidy id ∧ ∀ random,
      Coordinates id (fun _ => 3) 1 ⟨0, ascii "g", 0⟩ ((offsetsCreated 1).seeded random) := by
  have tidy : (offsetsCreated 1).cluster.fsm.Tidy id :=
    (Store.Clean.new.applyAll (offsetsCreated 1).cluster.committed).tidy
  refine ⟨tidy, (findCoordinator_coordinates_iff (fun _ => 3) 1 _ tidy).mpr
    ⟨by decide +kernel, fun p here => ?_⟩⟩
  cases here
  exact ⟨_, _, rfl, rfl⟩

/-- Without partitions the handler divides by zero; once the leader has left the ring, it
dereferences a nil broker. -/
theorem findCoordinator_panics :
    (∃ b, (handleFindCoordinator id (fun _ => 3) 1 ⟨0, ascii "g", 0⟩).run
      (offsetsCreated 0) = .error (.panic "integer divide by zero") b) ∧
    ∃ b, (handleFindCoordinator id (fun _ => 3) 1 ⟨0, ascii "g", 0⟩).run
      { offsetsCreated 1 with cluster := { (offsetsCreated 1).cluster with lookup := ⟨[], []⟩ } } =
        .error nilPointer b := by
  exact ⟨⟨_, rfl⟩, ⟨_, rfl⟩⟩

end Jocko.Broker
