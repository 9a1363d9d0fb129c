import Jocko.Broker.FailoverRun

namespace Jocko.Broker

open Go MemDB Fsm Protocol Cluster List

/-- The rows of the partition table. -/
def partitionRows (s : Store) : List Fsm.Partition := s.partitions.values

/-- A partition's leader is in sync, and those in sync are replicas. -/
def Healthy (p : Fsm.Partition) : Prop := p.leader ∈ p.isr ∧ p.isr ⊆ p.ar

/-- The partition does not need the failed broker any more. -/
def Recovered (failed : Int32) (p : Fsm.Partition) : Prop :=
  p.leader ≠ failed ∧ Healthy p ∧ failed ∉ p.isr

instance (p : Fsm.Partition) : Decidable (Healthy p) := by
  unfold Healthy
  infer_instance

instance (failed : Int32) (p : Fsm.Partition) : Decidable (Recovered failed p) := by
  unfold Recovered
  infer_instance

variable {lower : Str → Str} {c : Cluster}

theorem mem_partitionRows {s : Store} {p : Fsm.Partition} :
    p ∈ partitionRows s ↔ ∃ k, partitionKind.row? s k = some p := by
  simp only [partitionRows, mem_map, Radix.mem_values, Kind.row?, Kind.first, Option.map_eq_some_iff]
  constructor
  · rintro ⟨o, ⟨k, stored⟩, rfl⟩
    exact ⟨k, o, stored, rfl⟩
  · rintro ⟨k, o, stored, rfl⟩
    exact ⟨o, ⟨k, stored⟩, rfl⟩

/-- A partition of the failed broker recovers if and only if its new leader was in sync. -/
theorem recovered_reassigned {failed : Int32} {p : Fsm.Partition} {node : Fsm.Node}
    (create modify : UInt64) (other : node.node ≠ failed) (inside : p.isr ⊆ p.ar) :
    Recovered failed { reassigned failed p node with createIndex := create, modifyIndex := modify } ↔
      node.node ∈ p.isr := by
  simp only [Recovered, Healthy, reassigned, mem_filter, decide_eq_true_eq, ne_eq, other,
    not_false_eq_true, and_true, true_and, not_true_eq_false, and_false]
  constructor
  · exact fun recovered => recovered.1
  · intro insync
    refine ⟨insync, fun r here => ?_⟩
    have parts := mem_filter.mp here
    exact mem_filter.mpr ⟨inside parts.1, parts.2⟩

theorem mem_led (tidy : c.fsm.Tidy lower) {failed : Int32} {p : Fsm.Partition} :
    p ∈ led lower failed c.fsm ↔ p ∈ partitionRows c.fsm ∧ p.leader = failed := by
  rw [mem_partitionRows]
  constructor
  · intro inside
    obtain ⟨row, leads⟩ := tidy.mem_partitionsByLeader.mp inside
    exact ⟨⟨_, row⟩, leads⟩
  · rintro ⟨⟨k, row⟩, leads⟩
    exact tidy.mem_partitionsByLeader.mpr ⟨(tidy.partition_key row).2 ▸ row, leads⟩

section

variable {m : SerfMember} {broker : MetaBroker} (member : isBroker m = some broker)
  (reliable : Reliable c) (tidy : c.fsm.Tidy lower) (healthy : ∀ p ∈ partitionRows c.fsm, Healthy p)
include member reliable tidy healthy

/-- What the random choices have to be, for every partition to get a leader that is in sync. -/
theorem recovers_chosen_iff :
    (∀ p ∈ partitionRows ((handleFailedMember lower m).run c).state.fsm, Recovered broker.id p) ↔
      (∀ p ∈ partitionRows c.fsm, p.leader ≠ broker.id → broker.id ∉ p.isr) ∧
      (led lower broker.id c.fsm ≠ [] → ∃ passing,
        passingNodes broker.id (survivors broker.id c.fsm) = .ok passing ∧
        ∀ i p, (led lower broker.id c.fsm)[i]? = some p → ∃ node,
          c.chosen passing ((coordinated lower broker.id c.fsm).length + i) = some node ∧
          node.node ∈ p.isr) := by
  obtain ⟨fsm, applied, committed, drawn, dialled, sent, ends, tidy', -, outcome⟩ :=
    handleFailedMember_state member reliable tidy
  rw [ends]
  dsimp only
  rcases outcome with ⟨passing, found, some, elected⟩ | ⟨none, same⟩
  · have elects {j : Nat} {p : Fsm.Partition} {node : Fsm.Node} (create modify : UInt64)
        (here : p ∈ led lower broker.id c.fsm) (chosen : c.chosen passing j = .some node) :
        Recovered broker.id { reassigned broker.id p node with
          createIndex := create
          modifyIndex := modify } ↔ node.node ∈ p.isr := by
      have passes := passingNodes_subset found (mem_of_getElem? chosen)
      exact recovered_reassigned create modify (by simpa using (mem_filter.mp passes).2)
        (healthy p ((mem_led tidy).mp here).1).2
    -- A row of another leader is not touched.
    have others {p : Fsm.Partition} (inside : p ∈ partitionRows c.fsm)
        (leads : p.leader ≠ broker.id) : p ∈ partitionRows fsm := by
      obtain ⟨k, row⟩ := mem_partitionRows.mp inside
      refine mem_partitionRows.mpr ⟨k, ?_⟩
      rw [elected.others k, row]
      intro q failed same
      obtain ⟨here, leads'⟩ := tidy.mem_partitionsByLeader.mp failed
      rw [same, row] at here
      exact leads (Option.some.inj here ▸ leads')
    constructor
    · intro recovered
      refine ⟨fun p inside leads => (recovered p (others inside leads)).2.2, fun _ => ?_⟩
      refine ⟨passing, found, fun i p here => ?_⟩
      obtain ⟨node, create, modify, chosen, row⟩ := elected.rows i p here
      exact ⟨node, chosen, (elects create modify (mem_of_getElem? here) chosen).mp
        (recovered _ (mem_partitionRows.mpr ⟨_, row⟩))⟩
    · rintro ⟨rest, leaders⟩ q inside
      obtain ⟨k, row⟩ := mem_partitionRows.mp inside
      by_cases failed : ∃ p ∈ led lower broker.id c.fsm, partitionKey p.topic p.partition = k
      · obtain ⟨p, here, rfl⟩ := failed
        obtain ⟨i, at_i⟩ := mem_iff_getElem?.mp here
        obtain ⟨passing', found', insync⟩ := leaders (ne_nil_of_mem here)
        obtain rfl := Except.ok.inj (found'.symm.trans found)
        obtain ⟨node, chosen, insync⟩ := insync i p at_i
        obtain ⟨node', create, modify, chosen', row'⟩ := elected.rows i p at_i
        obtain rfl := Option.some.inj (chosen.symm.trans chosen')
        obtain rfl := Option.some.inj (row'.symm.trans row)
        exact (elects create modify here chosen).mpr insync
      · rw [elected.others k fun p here same => failed ⟨p, here, same⟩] at row
        have known := mem_partitionRows.mpr ⟨k, row⟩
        have leads : q.leader ≠ broker.id := fun leads =>
          failed ⟨q, (mem_led tidy).mpr ⟨known, leads⟩, (tidy.partition_key row).2.symm⟩
        exact ⟨leads, healthy q known, rest q known leads⟩
  · have rows : partitionRows fsm = partitionRows c.fsm := by
      rw [partitionRows, same]
      rfl
    rw [rows]
    constructor
    · intro recovered
      refine ⟨fun p inside _ => (recovered p inside).2.2, fun failed => ?_⟩
      obtain ⟨p, here⟩ := exists_mem_of_ne_nil _ failed
      obtain ⟨inside, leads⟩ := (mem_led tidy).mp here
      exact absurd leads (recovered p inside).1
    · rintro ⟨rest, leaders⟩ p inside
      have leads : p.leader ≠ broker.id := by
        intro leads
        have here := (mem_led tidy).mpr ⟨inside, leads⟩
        obtain ⟨passing, found, insync⟩ := leaders (ne_nil_of_mem here)
        obtain ⟨i, at_i⟩ := mem_iff_getElem?.mp here
        obtain ⟨node, chosen, -⟩ := insync i p at_i
        rw [none passing found] at chosen
        cases chosen
      exact ⟨leads, healthy p inside, rest p inside leads⟩

/-- After the failure of a broker every partition has a leader that is in sync, whatever the
random source gives, if and only if the broker was in sync for no partition of another leader,
and for those that it led all the other nodes that pass were in sync, and there was one. -/
theorem handleFailedMember_recovers_iff :
    (∀ random, ∀ p ∈ partitionRows ((handleFailedMember lower m).run { c with random }).state.fsm,
      Recovered broker.id p) ↔
      (∀ p ∈ partitionRows c.fsm, p.leader ≠ broker.id → broker.id ∉ p.isr) ∧
      ∀ p ∈ partitionRows c.fsm, p.leader = broker.id → ∃ passing,
        passingNodes broker.id (survivors broker.id c.fsm) = .ok passing ∧ passing ≠ [] ∧
        ∀ node ∈ passing, node.node ∈ p.isr := by
  have recovers (random : Nat → Nat) := recovers_chosen_iff (c := { c with random }) member reliable
    tidy healthy
  constructor
  · intro all
    refine ⟨((recovers c.random).mp (all c.random)).1, fun p inside leads => ?_⟩
    have here := (mem_led tidy).mpr ⟨inside, leads⟩
    obtain ⟨i, at_i⟩ := mem_iff_getElem?.mp here
    have chosen (random : Nat → Nat) := ((recovers random).mp (all random)).2 (ne_nil_of_mem here)
    obtain ⟨passing, found, first⟩ := chosen c.random
    obtain ⟨node, some, -⟩ := first i p at_i
    refine ⟨passing, found, ne_nil_of_mem (mem_of_getElem? some), fun node passes => ?_⟩
    -- A source that always gives the place of the node makes it the leader.
    obtain ⟨j, at_j⟩ := mem_iff_getElem?.mp passes
    obtain ⟨passing', found', insync⟩ := chosen fun _ => j
    obtain rfl := Except.ok.inj (found'.symm.trans found)
    obtain ⟨node', some', insync⟩ := insync i p at_i
    have below := (List.getElem?_eq_some_iff.mp at_j).1
    rw [Cluster.chosen, Nat.mod_eq_of_lt below, at_j] at some'
    exact Option.some.inj some' ▸ insync
  · rintro ⟨rest, leaders⟩ random
    refine (recovers random).mpr ⟨rest, fun failed => ?_⟩
    have leads {p : Fsm.Partition} (here : p ∈ led lower broker.id c.fsm) :=
      leaders p ((mem_led tidy).mp here).1 ((mem_led tidy).mp here).2
    obtain ⟨p, here⟩ := exists_mem_of_ne_nil _ failed
    obtain ⟨passing, found, some, -⟩ := leads here
    refine ⟨passing, found, fun i q at_i => ?_⟩
    obtain ⟨passing', found', -, insync⟩ := leads (mem_of_getElem? at_i)
    obtain rfl := Except.ok.inj (found'.symm.trans found)
    obtain ⟨node, chosen⟩ := exists_chosen (c := { c with random }) some
      ((coordinated lower broker.id c.fsm).length + i)
    exact ⟨node, chosen, insync node (mem_of_getElem? chosen)⟩

end

/-- A node that passes its check. -/
def passingNode (id : Int32) : Fsm.Node :=
  ⟨id, id, [], some ⟨[], serfCheckID, serfCheckName, healthPassing, []⟩, none, 0, 0⟩

/-- One partition with three replicas, two of them in sync, on three brokers that pass. -/
def replicated : Store := Store.new.applyAll id
  [(1, .registerNode (passingNode 1)), (2, .registerNode (passingNode 2)),
    (3, .registerNode (passingNode 3)),
    (4, .registerPartition ⟨0, 0, ascii "t", [1, 2], [1, 2, 3], 1, 0, 0, 0, 0⟩)]

/-- The gossip ring reports this member for the broker 1. -/
def firstMember : SerfMember := ⟨some [(ascii "role", ascii "jocko"), (ascii "id", ascii "1")]⟩

/-- The third replica has caught up. -/
def caughtUp : Cluster := lone (replicated.applyAll id
  [(5, .registerPartition ⟨0, 0, ascii "t", [1, 2, 3], [1, 2, 3], 1, 0, 0, 0, 0⟩)]) fun _ => .ok 6

theorem handleFailedMember_recovers_caughtUp :
    isBroker firstMember = some ⟨1, [], []⟩ ∧
    ∀ random, ∀ p ∈ partitionRows ((handleFailedMember id firstMember).run
      { caughtUp with random }).state.fsm, Recovered 1 p := by
  have member : isBroker firstMember = some ⟨1, [], []⟩ := by decide +kernel
  have one : partitionRows caughtUp.fsm =
      [⟨0, 0, ascii "t", [1, 2, 3], [1, 2, 3], 1, 0, 0, 4, 5⟩] := by decide +kernel
  have tidy : caughtUp.fsm.Tidy id := ((Store.Clean.new.applyAll _).applyAll _).tidy
  have reliable : Reliable caughtUp := fun _ => ⟨6, rfl⟩
  have healthy : ∀ p ∈ partitionRows caughtUp.fsm, Healthy p := by
    rw [one]
    decide
  refine ⟨member, ?_⟩
  dsimp only
  refine (handleFailedMember_recovers_iff member reliable tidy healthy).mpr
    ⟨fun p inside => ?_, fun p inside _ => ?_⟩
  · obtain rfl := mem_singleton.mp (one ▸ inside)
    decide
  · obtain rfl := mem_singleton.mp (one ▸ inside)
    refine ⟨[{ passingNode 2 with createIndex := 2, modifyIndex := 2 },
      { passingNode 3 with createIndex := 3, modifyIndex := 3 }], by decide +kernel, by simp, ?_⟩
    decide

/-- A random choice falls on the replica that is not in sync, and it becomes the leader. -/
theorem failover_elects_stale_replica :
    let c : Cluster := { lone replicated fun _ => .ok 5 with random := fun _ => 1 }
    (∀ p ∈ partitionRows c.fsm, Healthy p ∧ ∃ r ∈ p.isr, r ≠ 1) ∧
    (partitionRows ((handleFailedMember id firstMember).run c).state.fsm).map
      (fun p => (p.leader, p.isr, p.ar)) = [(3, [2], [2, 3])] := by
  decide +kernel

end Jocko.Broker
