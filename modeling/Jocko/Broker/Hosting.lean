import Jocko.Broker.Announcements

namespace Jocko.Broker

open Go MemDB Fsm Protocol Cluster List Option

/-- The replica was made for this partition. -/
def Replica.serves (replica : Replica) (topic : Str) (id : Int32) : Bool :=
  replica.partition.topic = topic ∧ replica.partition.id = id

/-- Its two goroutines fetch from the leader and append to the log. -/
def Replicator.running (x : Replicator) : Bool := x.started && !x.closed

/-- The replica that `replicaLookup` finds. -/
def found (b : Broker) (topic : Str) (id : Int32) : Option Replica :=
  (b.lookup.lookup (topic, id)).bind fun r => b.replicas[r]?

/-- The logs that were opened for a partition. A broker closes none of them. -/
def openLogs (b : Broker) (topic : Str) (id : Int32) : List Nat :=
  b.replicas.filterMap fun replica => if replica.serves topic id then replica.log else none

/-- The replicator runs, and fills a replica of the partition. -/
def runsFor (b : Broker) (topic : Str) (id : Int32) (k : Nat) : Bool :=
  b.replicators[k]?.any fun x => x.running && b.replicas[x.replica]?.any (·.serves topic id)

def runningReplicators (b : Broker) (topic : Str) (id : Int32) : List Nat :=
  (List.range b.replicators.length).filter (runsFor b topic id)

/-- The log and the running replicator of a partition, at most one of each, are those of the
replica in the lookup, and a replica that leads is not filled by anyone. -/
structure Exclusive (b : Broker) (topic : Str) (id : Int32) : Prop where
  log : openLogs b topic id = ((found b topic id).bind Replica.log).toList
  replicator : runningReplicators b topic id =
    (((found b topic id).bind Replica.replicator).filter (runsFor b topic id)).toList
  leading : ∀ replica, found b topic id = some replica →
    replica.partition.leader = b.cluster.id → runningReplicators b topic id = []

/-- No partition has a second log or a second running replicator. -/
def AllExclusive (b : Broker) : Prop := ∀ topic id, Exclusive b topic id

/-- The replica in the lookup, if there is one, holds nothing that would have to be closed. -/
def Vacant (b : Broker) (topic : Str) (id : Int32) : Prop :=
  ∀ replica, found b topic id = some replica →
    replica.log = none ∧ ∀ k, replica.replicator = some k → runsFor b topic id k = false

/-- References between replicas and replicators lead both ways. -/
structure Linked (b : Broker) : Prop where
  listed : ∀ topic id r, b.lookup.lookup (topic, id) = some r →
    ∃ replica, b.replicas[r]? = some replica ∧ replica.serves topic id
  filled : ∀ x ∈ b.replicators, x.replica < b.replicas.length
  held : ∀ r (replica : Replica) k, b.replicas[r]? = some replica → replica.replicator = some k →
    ∃ x : Replicator, b.replicators[k]? = some x ∧ x.replica = r
  leading : ∀ replica ∈ b.replicas, replica.partition.leader = b.cluster.id →
    replica.replicator = none

variable {lower : Str → Str} {α : Type}
variable {b : Broker} {r : Nat} {replica : Replica}

/-- What one state of a request does: a new replica takes the place of the one in the lookup. -/
structure Hosts (p : PartitionState) (b b' : Broker) : Prop where
  id : b'.cluster.id = b.cluster.id
  lookup : b'.lookup = ((p.topic, p.partition), b.replicas.length) ::
    b.lookup.filter fun e => e.1 ≠ (p.topic, p.partition)
  hosts : ∃ replica, b'.replicas = b.replicas ++ [replica] ∧
    replica.partition.topic = p.topic ∧ replica.partition.id = p.partition ∧
    Engages b.replicas.length b.replicators replica.replicator b'.replicators ∧
    (replica.partition.leader = b.cluster.id → replica.replicator = none)

theorem handleState_hosts (p : PartitionState) (b : Broker) :
    Hosts p b ((handleState lower p).run b).state := by
  obtain ⟨dialled, disk, segs, logs, partition, log, replicator, replicators, same, topic, id, leader,
    engages, leading⟩ := @handleState_installs lower p b
  rw [same]
  exact ⟨rfl, rfl, { stateReplica b.cluster.id p with partition, log, replicator },
    by simp [Broker.hosting], topic, id, engages, leading⟩

theorem Replica.serves_iff {topic : Str} {id : Int32} : replica.serves topic id = true ↔
      replica.partition.topic = topic ∧ replica.partition.id = id := by
  simp [Replica.serves]

theorem Linked.found (linked : Linked b) {topic : Str} {id : Int32}
    (here : found b topic id = some replica) : ∃ r, b.lookup.lookup (topic, id) = some r ∧
      b.replicas[r]? = some replica ∧ replica.partition.topic = topic ∧ replica.partition.id = id := by
  obtain ⟨r, listed, present⟩ := Option.bind_eq_some_iff.mp here
  obtain ⟨replica', present', serves⟩ := linked.listed _ _ _ listed
  obtain rfl := Option.some.inj (present.symm.trans present')
  exact ⟨r, listed, present, Replica.serves_iff.mp serves⟩

namespace Hosts

variable {p : PartitionState} {b b' : Broker}

theorem found_eq (hosts : Hosts p b b') (linked : Linked b)
    (replicas : b'.replicas = b.replicas ++ [replica]) (topic : Str) (id : Int32) :
    found b' topic id = if (topic, id) = (p.topic, p.partition) then some replica
      else found b topic id := by
  unfold found
  rw [hosts.lookup, lookup_replace, replicas]
  by_cases own : (topic, id) = (p.topic, p.partition)
  · rw [if_pos own, if_pos own, bind_some, getElem?_concat_length]
  · rw [if_neg own, if_neg own]
    cases listed : b.lookup.lookup (topic, id) with
    | none => rfl
    | some r =>
      obtain ⟨old, here, -⟩ := linked.listed topic id r listed
      have inside := (List.getElem?_eq_some_iff.mp here).1
      rw [bind_some, bind_some, List.getElem?_append_left inside]

theorem openLogs_eq (replicas : b'.replicas = b.replicas ++ [replica]) (topic : Str) (id : Int32) :
    openLogs b' topic id = openLogs b topic id ++
      if replica.serves topic id then replica.log.toList else [] := by
  unfold openLogs
  rw [replicas, filterMap_append]
  congr 1
  cases serves : replica.serves topic id with
  | false => simp [serves]
  | true => cases log : replica.log <;> simp [serves, log]

theorem runsFor_old (hosts : Hosts p b b') (linked : Linked b) {k : Nat}
    (old : k < b.replicators.length) (topic : Str) (id : Int32) :
    runsFor b' topic id k = runsFor b topic id k := by
  obtain ⟨replica, replicas, -, -, engages, -⟩ := hosts.hosts
  have kept : b'.replicators[k]? = b.replicators[k]? := by
    rcases engages with ⟨-, same⟩ | ⟨-, leader, started, same⟩
    · rw [same]
    · rw [same, getElem?_append_left old]
  have inside : b.replicators[k].replica < b.replicas.length :=
    linked.filled _ (getElem_mem old)
  unfold runsFor
  rw [kept, getElem?_eq_getElem old, any_some, any_some, replicas,
    getElem?_append_left inside]

theorem running_eq (hosts : Hosts p b b') (linked : Linked b)
    (replicas : b'.replicas = b.replicas ++ [replica]) (topic : Str) (id : Int32) :
    runningReplicators b' topic id = runningReplicators b topic id ++
      if replica.serves topic id then (replica.replicator.filter (runsFor b' topic id)).toList
      else [] := by
  have old : (range b.replicators.length).filter (runsFor b' topic id) =
      runningReplicators b topic id :=
    filter_congr fun k inside => hosts.runsFor_old linked (mem_range.mp inside) topic id
  obtain ⟨replica', replicas', -, -, engages, -⟩ := hosts.hosts
  obtain rfl : replica' = replica := by simpa using replicas'.symm.trans replicas
  unfold runningReplicators at old ⊢
  rcases engages with ⟨idle, same⟩ | ⟨engaged, leader, started, same⟩
  · rw [same, old, idle]
    simp
  · have last : runsFor b' topic id b.replicators.length =
        (started && replica'.serves topic id) := by
      simp [runsFor, same, replicas, Replicator.running]
    rw [same, length_append, length_singleton, range_succ, filter_append, old,
      engaged]
    congr 1
    cases serves : replica'.serves topic id with
    | false => simp [last, serves]
    | true => cases started <;> simp [last, serves, filter_some]

theorem linked (hosts : Hosts p b b') (linked : Linked b) : Linked b' := by
  obtain ⟨replica, replicas, topic, id, engages, leading⟩ := hosts.hosts
  have serves : replica.serves p.topic p.partition := Replica.serves_iff.mpr ⟨topic, id⟩
  refine ⟨fun t i r listed => ?_, fun x inside => ?_, fun r held k here engaged => ?_,
    fun held inside led => ?_⟩
  · rw [hosts.lookup, lookup_replace] at listed
    by_cases own : (t, i) = (p.topic, p.partition)
    · rw [if_pos own] at listed
      obtain rfl := some.inj listed
      obtain ⟨rfl, rfl⟩ := Prod.mk.inj own
      exact ⟨replica, by rw [replicas, getElem?_concat_length], serves⟩
    · rw [if_neg own] at listed
      obtain ⟨old, here, serves'⟩ := linked.listed t i r listed
      refine ⟨old, ?_, serves'⟩
      rw [replicas, List.getElem?_append_left (List.getElem?_eq_some_iff.mp here).1, here]
  · have length : b'.replicas.length = b.replicas.length + 1 := by simp [replicas]
    rw [length]
    rcases engages with ⟨-, same⟩ | ⟨-, leader, started, same⟩
    · exact Nat.lt_succ_of_lt (linked.filled x (same ▸ inside))
    · rw [same] at inside
      rcases mem_append.mp inside with old | new
      · exact Nat.lt_succ_of_lt (linked.filled x old)
      · rw [mem_singleton.mp new]
        exact Nat.lt_succ_self _
  · rw [replicas] at here
    by_cases old : r < b.replicas.length
    · rw [getElem?_append_left old] at here
      obtain ⟨x, present, back⟩ := linked.held r held k here engaged
      refine ⟨x, ?_, back⟩
      rcases engages with ⟨-, same⟩ | ⟨-, leader, started, same⟩
      · rw [same, present]
      · rw [same, List.getElem?_append_left (List.getElem?_eq_some_iff.mp present).1, present]
    · have last : r = b.replicas.length := by
        have inside := (List.getElem?_eq_some_iff.mp here).1
        simp only [List.length_append, List.length_singleton] at inside
        omega
      rw [last, getElem?_concat_length] at here
      obtain rfl := some.inj here
      rcases engages with ⟨idle, -⟩ | ⟨own, leader, started, same⟩
      · rw [idle] at engaged
        cases engaged
      · obtain rfl := some.inj (own.symm.trans engaged)
        exact ⟨_, by rw [same, getElem?_concat_length], last.symm⟩
  · rw [hosts.id] at led
    rw [replicas] at inside
    rcases mem_append.mp inside with old | new
    · exact linked.leading held old led
    · obtain rfl := mem_singleton.mp new
      exact leading led

end Hosts

/-- A partition is vacant and in order exactly if nothing was opened or started for it. -/
theorem vacant_iff (linked : Linked b) (topic : Str) (id : Int32) :
    (openLogs b topic id = [] ∧ runningReplicators b topic id = []) ↔
      Exclusive b topic id ∧ Vacant b topic id := by
  have listed {replica : Replica} (here : found b topic id = some replica) :
      ∃ r : Nat, b.replicas[r]? = some replica ∧ replica.serves topic id := by
    obtain ⟨r, key, present⟩ := bind_eq_some_iff.mp here
    obtain ⟨replica', present', serves⟩ := linked.listed topic id r key
    obtain rfl := some.inj (present'.symm.trans present)
    exact ⟨r, present, serves⟩
  constructor
  · rintro ⟨logs, running⟩
    have vacant : Vacant b topic id := by
      intro replica here
      obtain ⟨r, present, serves⟩ := listed here
      constructor
      · have each := filterMap_eq_nil_iff.mp logs replica (mem_of_getElem? present)
        rwa [if_pos serves] at each
      · intro k engaged
        obtain ⟨x, filled, -⟩ := linked.held r replica k present engaged
        have inside := (List.getElem?_eq_some_iff.mp filled).1
        have idle := List.filter_eq_nil_iff.mp running k (List.mem_range.mpr inside)
        simpa using idle
    refine ⟨⟨?_, ?_, fun _ _ _ => running⟩, vacant⟩
    · rw [logs]
      cases here : found b topic id with
      | none => rfl
      | some replica => simp [(vacant replica here).1]
    · rw [running]
      cases here : found b topic id with
      | none => rfl
      | some replica =>
        cases engaged : replica.replicator with
        | none => simp [engaged]
        | some k => simp [engaged, (vacant replica here).2 k engaged]
  · rintro ⟨exclusive, vacant⟩
    rw [exclusive.log, exclusive.replicator]
    cases here : found b topic id with
    | none => exact ⟨rfl, rfl⟩
    | some replica =>
      obtain ⟨log, replicator⟩ := vacant replica here
      refine ⟨by simp [log], ?_⟩
      cases engaged : replica.replicator with
      | none => simp [engaged]
      | some k => simp [engaged, replicator k engaged]

/-- After a state is handled everything is in order if and only if it was before, and the state
found its partition vacant. -/
theorem Hosts.exclusive_iff {p : PartitionState} {b' : Broker} (hosts : Hosts p b b')
    (linked : Linked b) : AllExclusive b' ↔ AllExclusive b ∧ Vacant b p.topic p.partition := by
  obtain ⟨replica, replicas, topic, id, engages, leading⟩ := hosts.hosts
  have logs := openLogs_eq replicas
  have running := hosts.running_eq linked replicas
  have lookup := hosts.found_eq linked replicas
  have own : Exclusive b' p.topic p.partition ↔
      openLogs b p.topic p.partition = [] ∧ runningReplicators b p.topic p.partition = [] := by
    have serves : replica.serves p.topic p.partition := Replica.serves_iff.mpr ⟨topic, id⟩
    have here : found b' p.topic p.partition = some replica := by rw [lookup, if_pos rfl]
    have log := logs p.topic p.partition
    have replicator := running p.topic p.partition
    rw [if_pos serves] at log replicator
    constructor
    · intro exclusive
      have log' := exclusive.log
      have replicator' := exclusive.replicator
      rw [here, log] at log'
      rw [here, replicator] at replicator'
      exact ⟨append_left_eq_self.mp log', append_left_eq_self.mp replicator'⟩
    · rintro ⟨noLog, noReplicator⟩
      refine ⟨by rw [log, noLog, here]; rfl, by rw [replicator, noReplicator, here]; rfl, ?_⟩
      intro replica' same led
      obtain rfl := some.inj (here.symm.trans same)
      rw [hosts.id] at led
      rw [replicator, noReplicator, leading led]
      rfl
  have others (t : Str) (i : Int32) (other : (t, i) ≠ (p.topic, p.partition)) :
      Exclusive b' t i ↔ Exclusive b t i := by
    have apart : ¬ replica.serves t i := fun serves => by
      obtain ⟨rfl, rfl⟩ := Replica.serves_iff.mp serves
      exact other (by rw [topic, id])
    have log := logs t i
    have replicator := running t i
    have same := lookup t i
    rw [if_neg apart, append_nil] at log replicator
    rw [if_neg other] at same
    have filtered : ((found b t i).bind Replica.replicator).filter (runsFor b' t i) =
        ((found b t i).bind Replica.replicator).filter (runsFor b t i) := by
      cases engaged : (found b t i).bind Replica.replicator with
      | none => rfl
      | some k =>
        obtain ⟨held, here, engaged⟩ := bind_eq_some_iff.mp engaged
        obtain ⟨r, -, present⟩ := bind_eq_some_iff.mp here
        obtain ⟨x, filled, -⟩ := linked.held r held k present engaged
        have old := (List.getElem?_eq_some_iff.mp filled).1
        rw [filter_some, filter_some, hosts.runsFor_old linked old]
    constructor
    · intro exclusive
      refine ⟨?_, ?_, fun held here led => ?_⟩
      · rw [← log, ← same, exclusive.log]
      · rw [← replicator, ← filtered, ← same, exclusive.replicator]
      · rw [← replicator]
        exact exclusive.leading held (same.trans here) (by rw [hosts.id, led])
    · intro exclusive
      refine ⟨?_, ?_, fun held here led => ?_⟩
      · rw [log, same, exclusive.log]
      · rw [replicator, same, filtered, exclusive.replicator]
      · rw [replicator]
        exact exclusive.leading held (same.symm.trans here) (by rw [← hosts.id, led])
  constructor
  · intro all
    have both := (vacant_iff linked p.topic p.partition).mp (own.mp (all _ _))
    refine ⟨fun t i => ?_, both.2⟩
    by_cases here : (t, i) = (p.topic, p.partition)
    · obtain ⟨rfl, rfl⟩ := Prod.mk.inj here
      exact both.1
    · exact (others t i here).mp (all t i)
  · rintro ⟨all, vacant⟩ t i
    by_cases here : (t, i) = (p.topic, p.partition)
    · obtain ⟨rfl, rfl⟩ := Prod.mk.inj here
      exact own.mpr ((vacant_iff linked _ _).mpr ⟨all _ _, vacant⟩)
    · exact (others t i here).mpr (all t i)

section

variable (lower : Str → Str)

/-- Every state of a request finds its partition vacant when its turn comes. -/
def VacantStates : List PartitionState → Broker → Prop
  | [], _ => True
  | p :: states, b => Vacant b p.topic p.partition ∧
      ∀ first b', (handleState lower p).run b = .ok first b' → VacantStates states b'

/-- A request as it reaches the broker, with the replicated state and the ring as they are by
then. -/
structure Delivery where
  fsm : Store
  lookup : BrokerLookup
  req : LeaderAndISRRequest

/-- The broker at the time of the delivery. -/
def Delivery.meet (d : Delivery) (b : Broker) : Broker :=
  { b with cluster := { b.cluster with fsm := d.fsm, lookup := d.lookup } }

/-- A property of the broker after each request, and where it stops, if it does. -/
def AfterEach (P : Broker → Prop) : List Delivery → Broker → Prop
  | [], _ => True
  | d :: ds, b => P ((handleLeaderAndISR lower d.req).run (d.meet b)).state ∧
      ∀ res b', (handleLeaderAndISR lower d.req).run (d.meet b) = .ok res b' → AfterEach P ds b'

def VacantDeliveries : List Delivery → Broker → Prop
  | [], _ => True
  | d :: ds, b => VacantStates lower d.req.partitionStates (d.meet b) ∧
      ∀ res b', (handleLeaderAndISR lower d.req).run (d.meet b) = .ok res b' →
        VacantDeliveries ds b'

end

theorem handleStates_exclusive_iff (states : List PartitionState) (linked : Linked b) :
    Linked ((handleStates lower states).run b).state ∧
      (AllExclusive ((handleStates lower states).run b).state ↔
        AllExclusive b ∧ VacantStates lower states b) := by
  induction states generalizing b with
  | nil => exact ⟨linked, (and_iff_left trivial).symm⟩
  | cons p states ih =>
    have hosts := @handleState_hosts lower p b
    have linked' := hosts.linked linked
    have step := hosts.exclusive_iff linked
    unfold handleStates VacantStates
    cases ends : (handleState lower p).run b with
    | error why b' =>
      rw [ends] at linked' step
      rw [bind_error ends]
      refine ⟨linked', step.trans (and_congr_right fun _ => (and_iff_left ?_).symm)⟩
      exact nofun
    | ok first b' =>
      rw [ends, Result.state] at linked' step
      obtain ⟨linked'', rest⟩ := ih linked'
      rw [bind_ok ends, bind_state fun _ _ => rfl]
      refine ⟨linked'', ?_⟩
      rw [rest, step, and_assoc]
      refine and_congr_right fun _ => and_congr_right fun _ => ?_
      exact ⟨fun safe _ _ same => by cases same; exact safe, fun safe => safe first b' rfl⟩

theorem handleLeaderAndISR_exclusive_iff (req : LeaderAndISRRequest) {b : Broker}
    (linked : Linked b) : Linked ((handleLeaderAndISR lower req).run b).state ∧
      (AllExclusive ((handleLeaderAndISR lower req).run b).state ↔
        AllExclusive b ∧ VacantStates lower req.partitionStates b) := by
  unfold handleLeaderAndISR
  rw [bind_state fun _ _ => rfl]
  exact handleStates_exclusive_iff req.partitionStates linked

/-- Whatever requests a broker gets, each partition keeps one log and one running replicator,
and those of the lookup, if and only if no state of a request is for a partition whose replica
has a log or a running replicator already. -/
theorem deliveries_exclusive_iff (ds : List Delivery) {b : Broker} (linked : Linked b)
    (exclusive : AllExclusive b) :
    AfterEach lower AllExclusive ds b ↔ VacantDeliveries lower ds b := by
  induction ds generalizing b with
  | nil => exact Iff.rfl
  | cons d ds ih =>
    have linked' : Linked (d.meet b) := ⟨linked.listed, linked.filled, linked.held, linked.leading⟩
    have exclusive' : AllExclusive (d.meet b) := fun t i =>
      ⟨(exclusive t i).log, (exclusive t i).replicator, (exclusive t i).leading⟩
    obtain ⟨linked'', step⟩ := @handleLeaderAndISR_exclusive_iff lower d.req _ linked'
    unfold AfterEach VacantDeliveries
    rw [step, and_iff_right exclusive']
    refine and_congr_right fun safe => ?_
    have after := step.mpr ⟨exclusive', safe⟩
    refine forall_congr' fun res => forall_congr' fun b' => forall_congr' fun ends => ?_
    rw [ends] at linked'' after
    exact ih linked'' after

/-- The topic `t`, whose partition 0 is on two brokers. -/
def oneTopic : Store := Store.new.applyAll id
  [(1, .registerTopic ⟨[], ascii "t", some [(0, [1, 2])], none, false, 0, 0⟩)]

/-- The partition 0 of `t` gets a leader. -/
def elects (leader : Int32) : Delivery :=
  ⟨oneTopic, (connected oneTopic).lookup,
    ⟨0, 2, 0, [⟨ascii "t", 0, 0, leader, 0, [1, 2], 0, [1, 2], false⟩], []⟩⟩

/-- A broker with replication. -/
def replicating : Broker := { started (connected oneTopic) with devMode := false }

theorem replicating_linked : Linked replicating :=
  ⟨nofun, nofun, nofun, nofun⟩

theorem replicating_exclusive : AllExclusive replicating :=
  fun _ _ => ⟨rfl, rfl, nofun⟩

/-- The first request for a partition opens its log. -/
theorem deliveries_exclusive_first :
    openLogs ((handleLeaderAndISR id (elects 2).req).run replicating).state
      (ascii "t") 0 = [0] ∧
    AfterEach id AllExclusive [elects 2] replicating := by
  refine ⟨by decide +kernel, (deliveries_exclusive_iff _ replicating_linked
    replicating_exclusive).mpr ⟨⟨nofun, fun _ _ _ => trivial⟩, fun _ _ _ => trivial⟩⟩

/-- A follower that becomes the leader still fetches from the old one, and has its log open a
second time. -/
theorem new_leader_still_fetches :
    let follower := ((handleLeaderAndISR id (elects 2).req).run replicating).state
    let leader := ((handleLeaderAndISR id (elects 1).req).run follower).state
    (found leader (ascii "t") 0).map (fun replica => (replica.partition.leader, replica.replicator)) =
      some (1, none) ∧
    runningReplicators leader (ascii "t") 0 = [0] ∧ openLogs leader (ascii "t") 0 = [0, 1] := by
  decide +kernel

end Jocko.Broker
