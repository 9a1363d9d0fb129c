import Jocko.Broker.Fetching
import Jocko.Broker.Storage
import Jocko.Broker.TopicTables

namespace Jocko.Broker

open Go MemDB Fsm Protocol Cluster List
open Commitlog (View Ledger.stampFrom Place remaining)

/-- The record sets that were appended to the partitions. -/
abbrev Produced := Str → Int32 → List Bytes

def Produced.push (produced : Produced) (topic : Str) (id : Int32) (p : Bytes) : Produced :=
  fun t i => if t = topic ∧ i = id then produced t i ++ [p] else produced t i

/-- A replica that has a log. -/
structure Tenant (b : Broker) (r : Nat) (replica : Replica) (n : Nat) : Prop where
  here : b.replicas[r]? = some replica
  log : replica.log = some n

/-- Every log belongs to one replica, lies in the directory of its partition's number, and has
exactly what was produced to the partition. -/
structure Tenants (b : Broker) (produced : Produced) (rs : Nat → List Bytes)
    (older : Nat → List View) (active : Nat → View) : Prop where
  linked : Linked b
  housed : Housed b rs older active
  holds : ∀ r replica n, Tenant b r replica n → ∃ log, b.logs[n]? = some log ∧
    log.opts = replicaOptions b.dataDir replica.partition.id ∧
    rs n = Ledger.stampFrom 0 (produced replica.partition.topic replica.partition.id)
  placed : ∀ r replica n, Tenant b r replica n →
    b.lookup.lookup (replica.partition.topic, replica.partition.id) = some r
  single : ∀ r replica n r' replica' n', Tenant b r replica n → Tenant b r' replica' n' →
    replica.partition.id = replica'.partition.id → r = r'
  owned : ∀ (n : Nat) log, b.logs[n]? = some log → ∃ r replica, Tenant b r replica n
  vacant : ∀ id, (∀ r replica n, Tenant b r replica n → replica.partition.id ≠ id) →
    b.disk.listing (logDir b.dataDir id) = []
  unproduced : ∀ topic id, (∀ r replica n, Tenant b r replica n → ¬ replica.serves topic id) →
    produced topic id = []

/-- Whatever the logs are in detail. -/
def Rented (b : Broker) (produced : Produced) : Prop :=
  ∃ rs older active, Tenants b produced rs older active

/-- No log is open for a partition of this number. -/
def Free (b : Broker) (id : Int32) : Prop :=
  ∀ r replica n, Tenant b r replica n → replica.partition.id ≠ id

variable {lower : Str → Str} {b b' : Broker} {produced : Produced} {rs : Nat → List Bytes}
  {older : Nat → List View} {active : Nat → View}

variable {replica : Replica}

theorem tenant_concat (replicas : b'.replicas = b.replicas ++ [replica]) {r : Nat}
    {held : Replica} {n : Nat} : Tenant b' r held n ↔
      Tenant b r held n ∨ (r = b.replicas.length ∧ held = replica ∧ replica.log = some n) := by
  constructor
  · rintro ⟨here, log⟩
    rw [replicas, getElem?_append] at here
    split at here
    · exact .inl ⟨here, log⟩
    · obtain ⟨place, rfl⟩ := List.getElem?_eq_some_iff.mp here
      simp only [List.length_singleton] at place
      refine .inr ⟨by omega, ?_, ?_⟩
      · simp
      · simpa using log
  · rintro (⟨here, log⟩ | ⟨rfl, rfl, log⟩)
    · refine ⟨?_, log⟩
      rw [replicas, List.getElem?_append_left (List.getElem?_eq_some_iff.mp here).1, here]
    · exact ⟨by rw [replicas, List.getElem?_concat_length], log⟩

theorem tenant_same (same : b'.replicas = b.replicas) : Tenant b' = Tenant b := by
  funext r replica n
  refine propext ⟨?_, ?_⟩ <;> rintro ⟨here, log⟩
  · exact ⟨same ▸ here, log⟩
  · exact ⟨same ▸ here, log⟩

/-- The broker at the end of a round, and the log of the replica that it made. -/
theorem handleState_lodges (p : PartitionState) (housed : Housed b rs older active)
    (policy : DefaultPolicy lower b.cluster.fsm p.topic)
    (empty : b.disk.listing (logDir b.dataDir p.partition) = [])
    (other : ∀ (n : Nat) log, b.logs[n]? = some log → log.opts.path ≠ logDir b.dataDir p.partition) :
    ∃ replica, ((handleState lower p).run b).state.replicas = b.replicas ++ [replica] ∧
      replica.partition.topic = p.topic ∧ replica.partition.id = p.partition ∧
      ((handleState lower p).run b).state.dataDir = b.dataDir ∧
      Lodged rs p.partition b ((handleState lower p).run b).state replica.log := by
  obtain ⟨replica, replicas, topic, id, -, -⟩ := (@handleState_hosts lower p b).hosts
  refine ⟨replica, replicas, topic, id, ?_⟩
  have last : ((handleState lower p).run b).state.replicas[b.replicas.length]? = some replica := by
    rw [replicas, getElem?_concat_length]
  rw [handleState_run, bind_state fun _ _ => rfl] at last ⊢
  have housed' : Housed (b.hosting p) rs older active := housed.of_same rfl rfl rfl
  obtain ⟨replica', here, dataDir, lodged⟩ := takeRole_lodges housed' p getElem?_concat_length
    rfl rfl policy empty other
  obtain rfl := Option.some.inj (here.symm.trans last)
  refine ⟨dataDir, ?_⟩
  generalize replica'.log = log at lodged ⊢
  cases lodged with
  | idle disk segs logs => exact .idle disk segs logs
  | opened log older' active' logs opts housed' listing =>
    exact .opened log older' active' logs opts housed' listing

namespace Tenants

section

variable (tenants : Tenants b produced rs older active)
include tenants

theorem of_cluster {c : Cluster}
    (same : c.id = b.cluster.id) : Tenants { b with cluster := c } produced rs older active := by
  have kept : Tenant { b with cluster := c } = Tenant b := tenant_same rfl
  refine ⟨⟨tenants.linked.listed, tenants.linked.filled, tenants.linked.held, ?_⟩,
    tenants.housed.of_same rfl rfl rfl, ?_, ?_, ?_, ?_, ?_, ?_⟩
  · intro replica inside led
    exact tenants.linked.leading replica inside (led.trans same)
  all_goals rw [kept]
  · exact tenants.holds
  · exact tenants.placed
  · exact tenants.single
  · exact tenants.owned
  · exact tenants.vacant
  · exact tenants.unproduced

theorem path_ne {id : Int32} (free : Free b id)
    (n : Nat) (log : Commitlog.CommitLog) (there : b.logs[n]? = some log) :
    log.opts.path ≠ logDir b.dataDir id := by
  obtain ⟨r, replica, tenant⟩ := tenants.owned n log there
  obtain ⟨log', there', opts, -⟩ := tenants.holds r replica n tenant
  obtain rfl := Option.some.inj (there'.symm.trans there)
  rw [opts]
  exact fun same => free r replica n tenant (logDir_inj same)

/-- A state for a number that is free: the new replica has no log, or an empty one of its own. -/
theorem handleState (p : PartitionState)
    (policy : DefaultPolicy lower b.cluster.fsm p.topic) (free : Free b p.partition) :
    Rented ((handleState lower p).run b).state produced := by
  have hosts := @handleState_hosts lower p b
  obtain ⟨replica, replicas, topic, id, dataDir, lodged⟩ := handleState_lodges p tenants.housed policy
    (tenants.vacant _ free) (tenants.path_ne free)
  have linked := hosts.linked tenants.linked
  have lookup := hosts.lookup
  generalize ((Broker.handleState lower p).run b).state = b' at *
  have apart {r held n} (tenant : Tenant b r held n) :
      (held.partition.topic, held.partition.id) ≠ (p.topic, p.partition) := fun same =>
    free r held n tenant (Prod.mk.inj same).2
  have stays {r held n} (tenant : Tenant b r held n) : Tenant b' r held n :=
    (tenant_concat replicas).mpr (.inl tenant)
  have placed {r held n} (tenant : Tenant b r held n) :
      b'.lookup.lookup (held.partition.topic, held.partition.id) = some r := by
    rw [lookup, lookup_replace, if_neg (apart tenant)]
    exact tenants.placed r held n tenant
  generalize taken : replica.log = log at lodged
  cases lodged with
  | idle disk segs logs =>
    have old {r held n} (tenant : Tenant b' r held n) : Tenant b r held n := by
      rcases (tenant_concat replicas).mp tenant with old | ⟨-, -, log⟩
      · exact old
      · rw [taken] at log
        cases log
    refine ⟨rs, older, active, linked, tenants.housed.of_same disk segs logs, fun r held n tenant => ?_,
      fun r held n tenant => placed (old tenant), fun r held n r' held' n' tenant tenant' =>
        tenants.single r held n r' held' n' (old tenant) (old tenant'), fun n log there => ?_,
      fun id unused => ?_, fun t i unused => tenants.unproduced t i fun r held n tenant =>
        unused r held n (stays tenant)⟩
    · rw [logs, dataDir]
      exact tenants.holds r held n (old tenant)
    · rw [logs] at there
      obtain ⟨r, held, tenant⟩ := tenants.owned n log there
      exact ⟨r, held, stays tenant⟩
    · rw [disk, dataDir]
      exact tenants.vacant id fun r held n tenant => unused r held n (stays tenant)
  | opened log older' active' logs opts housed listing =>
    have new : Tenant b' b.replicas.length replica b.logs.length :=
      (tenant_concat replicas).mpr (.inr ⟨rfl, rfl, taken⟩)
    have cases {r held n} (tenant : Tenant b' r held n) :
        Tenant b r held n ∨ (r = b.replicas.length ∧ held = replica ∧ n = b.logs.length) := by
      rcases (tenant_concat replicas).mp tenant with old | ⟨place, same, log⟩
      · exact .inl old
      · exact .inr ⟨place, same, Option.some.inj (log.symm.trans taken)⟩
    refine ⟨_, older', active', linked, housed, fun r held n tenant => ?_, fun r held n tenant => ?_,
      fun r held n r' held' n' tenant tenant' same => ?_, fun n log' there => ?_, fun i unused => ?_,
      fun t i unused => tenants.unproduced t i fun r held n tenant => unused r held n (stays tenant)⟩
    · rcases cases tenant with old | ⟨rfl, rfl, rfl⟩
      · obtain ⟨log', there, opts', has⟩ := tenants.holds r held n old
        have inside := (List.getElem?_eq_some_iff.mp there).1
        refine ⟨log', ?_, by rw [dataDir]; exact opts', ?_⟩
        · rw [logs, List.getElem?_append_left inside, there]
        · rw [Function.update_of_ne (Nat.ne_of_lt inside), has]
      · refine ⟨log, by rw [logs, getElem?_concat_length], by rw [dataDir, id]; exact opts, ?_⟩
        have nothing : produced held.partition.topic held.partition.id = [] := by
          refine tenants.unproduced _ _ fun r held' n tenant serves => ?_
          exact free r held' n tenant ((Replica.serves_iff.mp serves).2.trans id)
        rw [Function.update_self, nothing]
        rfl
    · rcases cases tenant with old | ⟨rfl, rfl, rfl⟩
      · exact placed old
      · rw [lookup, lookup_replace, topic, id, if_pos rfl]
    · rcases cases tenant with old | ⟨rfl, rfl, rfl⟩
      · rcases cases tenant' with old' | ⟨rfl, rfl, rfl⟩
        · exact tenants.single r held n r' held' n' old old' same
        · exact absurd (same.trans id) (free r held n old)
      · rcases cases tenant' with old' | ⟨rfl, rfl, rfl⟩
        · exact absurd (same.symm.trans id) (free r' held' n' old')
        · rfl
    · rw [logs, getElem?_append] at there
      split at there
      · obtain ⟨r, held, tenant⟩ := tenants.owned n log' there
        exact ⟨r, held, stays tenant⟩
      · have place := (List.getElem?_eq_some_iff.mp there).1
        rw [List.length_singleton] at place
        obtain rfl : n = b.logs.length := by omega
        exact ⟨_, _, new⟩
    · have other : p.partition ≠ i := id ▸ unused _ _ _ new
      rw [dataDir, listing _ fun same => other (logDir_inj same).symm]
      exact tenants.vacant i fun r held n tenant => unused r held n (stays tenant)

end

theorem handleStates (states : List PartitionState) (tenants : Tenants b produced rs older active)
    (policy : ∀ p ∈ states, DefaultPolicy lower b.cluster.fsm p.topic)
    (distinct : (states.map PartitionState.partition).Nodup) (free : ∀ p ∈ states, Free b p.partition) :
    Rented ((handleStates lower states).run b).state produced := by
  induction states generalizing b rs older active with
  | nil => exact ⟨rs, older, active, tenants⟩
  | cons p states ih =>
    obtain ⟨rs', older', active', tenants'⟩ := tenants.handleState p
      (policy p (mem_cons_self ..)) (free p (mem_cons_self ..))
    obtain ⟨replica, replicas, -, id, -, -⟩ := (@handleState_hosts lower p b).hosts
    obtain ⟨dialled, cluster⟩ := @handleState_dials lower p b
    rw [map_cons, nodup_cons] at distinct
    refine bind_ends (P := (Rented · produced)) ⟨rs', older', active', tenants'⟩ fun first => ?_
    rw [bind_state fun _ _ => rfl]
    refine ih tenants' (fun q inside => ?_) distinct.2 fun q inside r held n tenant => ?_
    · rw [cluster]
      exact policy q (mem_cons_of_mem _ inside)
    · rcases (tenant_concat replicas).mp tenant with old | ⟨-, rfl, -⟩
      · exact free q (mem_cons_of_mem _ inside) r held n old
      · rw [id]
        exact fun same => distinct.1 (mem_map.mpr ⟨q, inside, same.symm⟩)

end Tenants

/-- A step that does not touch the broker's own machine. -/
def Remote (b b' : Broker) : Prop := ∃ c : Cluster, b' = { b with cluster := c } ∧
  c.id = b.cluster.id ∧ c.fsm.topics = b.cluster.fsm.topics

instance : IsPreorder Broker Remote where
  refl b := ⟨b.cluster, rfl, rfl, rfl⟩
  trans := by
    rintro a b c ⟨first, rfl, id, topics⟩ ⟨second, rfl, id', topics'⟩
    exact ⟨second, rfl, id'.trans id, topics'.trans topics⟩

theorem Tells.remote {req : LeaderAndISRRequest} {call : Call Cluster Unit}
    (tells : call.Moves (Tells req)) : (onCluster call).Moves Remote := by
  intro b
  obtain ⟨dialled, told, same, -⟩ := tells b.cluster
  rw [onCluster_state, same]
  exact ⟨_, rfl, rfl, rfl⟩

variable {topic : Str}

theorem DefaultPolicy.of_topics {s s' : Store} (policy : DefaultPolicy lower s topic)
    (same : s'.topics = s.topics) : DefaultPolicy lower s' topic := by
  intro row here
  refine policy row ?_
  rw [← here]
  simp only [Store.getTopic, Kind.first, topicKind, same]

namespace Remote

theorem tenants (remote : Remote b b') (tenants : Tenants b produced rs older active) :
    Tenants b' produced rs older active := by
  obtain ⟨c, rfl, id, -⟩ := remote
  exact tenants.of_cluster id

theorem free (remote : Remote b b') {id : Int32} (free : Free b id) : Free b' id := by
  obtain ⟨c, rfl, -, -⟩ := remote
  exact fun r replica n tenant => free r replica n ⟨tenant.here, tenant.log⟩

theorem policy (remote : Remote b b') (policy : DefaultPolicy lower b.cluster.fsm topic) :
    DefaultPolicy lower b'.cluster.fsm topic := by
  obtain ⟨c, rfl, -, topics⟩ := remote
  exact policy.of_topics topics

end Remote

theorem tell_remote (addr : Str) (req : LeaderAndISRRequest) {next : Call Broker Unit} {P : Broker → Prop}
    (stops : ∀ b', Remote b b' → P b') (rest : ∀ b', Remote b b' → P (next.run b').state) :
    P ((do
      onCluster reach
      onCluster (sendLeaderAndISR addr req)
      next : Call Broker Unit).run b).state := by
  refine (Tells.remote (reach_tells req)).reaches stops fun _ b₁ reached => ?_
  refine (Tells.remote (sendLeaderAndISR_tells addr req)).reaches
    (fun b₂ sent => stops b₂ (trans_of Remote reached sent)) fun _ b₂ sent => ?_
  exact rest b₂ (trans_of Remote reached sent)

theorem announce_remote (req : LeaderAndISRRequest) (brokers : List MetaBroker)
    (others : ∀ x ∈ brokers, x.id ≠ b.cluster.id) :
    Remote b ((announce lower req brokers).run b).state := by
  induction brokers generalizing b with
  | nil => exact refl_of Remote b
  | cons broker brokers ih =>
    have read : (onCluster configID).run b = .ok b.cluster.id b := rfl
    unfold announce
    rw [bind_ok read, if_neg (others broker (mem_cons_self ..))]
    refine tell_remote broker.brokerAddr req (P := Remote b) (fun _ told => told) fun b' told => ?_
    refine trans_of Remote told (ih fun x inside => ?_)
    obtain ⟨c, rfl, id, -⟩ := told
    rw [id]
    exact others x (mem_cons_of_mem _ inside)

/-- The brokers of a ring that lists this one once are told of partitions whose numbers are
free. -/
theorem Tenants.announce (req : LeaderAndISRRequest) (brokers : List MetaBroker)
    (tenants : Tenants b produced rs older active)
    (once : (brokers.filter fun x => x.id = b.cluster.id).length ≤ 1)
    (policy : ∀ p ∈ req.partitionStates, DefaultPolicy lower b.cluster.fsm p.topic)
    (distinct : (req.partitionStates.map PartitionState.partition).Nodup)
    (free : ∀ p ∈ req.partitionStates, Free b p.partition) :
    Rented ((announce lower req brokers).run b).state produced := by
  induction brokers generalizing b with
  | nil => exact ⟨rs, older, active, tenants⟩
  | cons broker brokers ih =>
    have read : (onCluster configID).run b = .ok b.cluster.id b := rfl
    unfold Broker.announce
    rw [bind_ok read]
    by_cases own : broker.id = b.cluster.id
    · rw [if_pos own]
      have others : ∀ x ∈ brokers, x.id ≠ b.cluster.id := by
        simpa [filter_cons, own, filter_eq_nil_iff] using once
      obtain ⟨rs', older', active', tenants'⟩ := tenants.handleStates req.partitionStates policy
        distinct free
      have handled : Tenants ((handleLeaderAndISR lower req).run b).state produced rs' older'
          active' := by
        unfold handleLeaderAndISR
        rw [bind_state fun _ _ => rfl]
        exact tenants'
      obtain ⟨dialled, cluster⟩ := @handleLeaderAndISR_dials lower req b
      refine ⟨rs', older', active', bind_ends (P := fun b' => Tenants b' produced rs' older' active')
        handled fun res => ?_⟩
      split
      · exact handled
      · refine (announce_remote req brokers ?_).tenants handled
        rw [cluster]
        exact others
    · rw [if_neg own]
      rw [filter_cons, if_neg (by simpa using own)] at once
      refine tell_remote broker.brokerAddr req (P := (Rented · produced))
        (fun b' told => ⟨rs, older, active, told.tenants tenants⟩) fun b' told => ?_
      have id : b'.cluster.id = b.cluster.id := by
        obtain ⟨c, rfl, id, -⟩ := told
        exact id
      exact ih (told.tenants tenants) (by rw [id]; exact once)
        (fun p inside => told.policy (policy p inside)) fun p inside => told.free (free p inside)

/-- A topic that was not there has the default policy once it is registered. -/
theorem registerTopic_policy {s : Store} (tidy : s.Tidy lower) (idx : UInt64) (topic : Str)
    (ps : List Fsm.Partition) (absent : (s.getTopic lower topic).2 = none) :
    DefaultPolicy lower (s.apply lower idx (.registerTopic (newTopic topic ps))).1 topic ∧
      Store.Tidy lower (s.apply lower idx (.registerTopic (newTopic topic ps))).1 := by
  by_cases named : topic = []
  · rw [Store.Tidy.registerTopic_unnamed s idx named]
    refine ⟨fun row here => ?_, tidy⟩
    rw [absent] at here
    cases here
  · obtain ⟨topics, index, create, written, tidy', byKey⟩ :=
      tidy.registerTopic idx (t := newTopic topic ps) named
    rw [written]
    refine ⟨fun row here => ?_, tidy'⟩
    have found : (topicKind lower).row? { s with topics, index } (lowerKey lower topic) =
        some row.val := congrArg (Option.map Obj.val) here
    rw [byKey, if_pos (show lowerKey lower topic = lowerKey lower (newTopic topic ps).topic from rfl)]
      at found
    rw [← Option.some.inj found]
    have default : getValue newTopicConfig (ascii "cleanup.policy") =
      some (.string (ascii "delete")) := by decide
    exact default

/-- The new topic of a broker whose numbers are free, however its creation ends. -/
theorem Tenants.registerTopic {ps : List Fsm.Partition}
    (tenants : Tenants b produced rs older active) (tidy : b.cluster.fsm.Tidy lower)
    (absent : (b.cluster.fsm.getTopic lower topic).2 = none) (built : Built topic ps)
    (once : (b.cluster.lookup.addressToBroker.filter fun e => e.2.id = b.cluster.id).length ≤ 1)
    (free : ∀ p ∈ ps, Free b p.partition) :
    Rented ((registerTopic lower topic ps).run b).state produced := by
  obtain ⟨entries, applied, ⟨-, -, stuck⟩ | ⟨commands, goes⟩⟩ :=
    registerTopic_cases lower topic ps b
  · rw [stuck]
    exact ⟨rs, older, active, tenants.of_cluster rfl⟩
  · obtain ⟨⟨idx, command⟩, entries, rfl, rfl, rest⟩ := map_eq_cons_iff.mp commands
    obtain ⟨policy, tidy'⟩ := registerTopic_policy tidy idx topic ps absent
    obtain ⟨partitions, index, done, -⟩ := applyAll_partitions tidy' rest
    rw [goes, announced, bind_state, attempt_state]
    · refine (tenants.of_cluster (c := { b.cluster.after lower _ applied with
        listed := b.cluster.listed + 1 }) rfl).announce _ _ ?_ (fun p inside => ?_) ?_
        fun p inside => ?_
      · have ring := ((b.cluster.order b.cluster.listed).perm
          (b.cluster.lookup.addressToBroker.map Prod.snd)).filter fun x => decide (x.id = b.cluster.id)
        rw [filter_map] at ring
        exact le_of_eq_of_le (ring.length_eq.trans (length_map ..)) once
      · obtain ⟨q, present, rfl⟩ := mem_map.mp inside
        rw [show (createdState q).topic = topic from built.topic q present]
        have topics := congrArg Store.topics done
        exact policy.of_topics topics
      · rw [creationRequest, map_map]
        refine (map_congr_left fun q present => ?_) ▸ built.distinct
        exact (built.id q present).symm
      · obtain ⟨q, present, rfl⟩ := mem_map.mp inside
        intro r replica n tenant
        rw [show (createdState q).partition = q.partition from built.id q present]
        exact free q present r replica n ⟨tenant.here, tenant.log⟩
    · intro outcome b'
      cases outcome <;> rfl

/-- `createTopic` for a topic whose numbers are free. -/
theorem Tenants.createTopic (req : CreateTopicRequest) (tenants : Tenants b produced rs older active)
    (tidy : b.cluster.fsm.Tidy lower)
    (once : (b.cluster.lookup.addressToBroker.filter fun e => e.2.id = b.cluster.id).length ≤ 1)
    (free : ∀ id, id < req.numPartitions → Free b id) :
    Rented ((createTopic lower req).run b).state produced := by
  obtain ⟨listed, drawn, ⟨same, -⟩ | ⟨ps, absent, made, goes⟩⟩ := createTopic_cases lower req b
  · rw [same]
    exact ⟨rs, older, active, tenants.of_cluster rfl⟩
  · rw [goes]
    refine (tenants.of_cluster (c := { b.cluster with listed, drawn }) rfl).registerTopic tidy
      absent (buildPartitions_built made) once fun p inside r replica n tenant => ?_
    exact free _ (buildPartitions_numbers made p inside) r replica n ⟨tenant.here, tenant.log⟩

section

variable {hash : Bytes → UInt64} {topic : Str} {data : Data}

theorem Tenants.log_inj (tenants : Tenants b produced rs older active) {r r' : Nat}
    {replica' : Replica} {n : Nat} (tenant : Tenant b r replica n)
    (tenant' : Tenant b r' replica' n) : r = r' := by
  obtain ⟨log, there, opts, -⟩ := tenants.holds r replica n tenant
  obtain ⟨log', there', opts', -⟩ := tenants.holds r' replica' n tenant'
  obtain rfl := Option.some.inj (there.symm.trans there')
  have paths : logDir b.dataDir replica.partition.id = logDir b.dataDir replica'.partition.id :=
    congrArg Commitlog.Options.path (opts.symm.trans opts')
  exact tenants.single r replica n r' replica' n tenant tenant' (logDir_inj paths)

/-- A record set is refused, or appended to the log of its partition and to no other. -/
theorem Tenants.produce (tenants : Tenants b produced rs older active) (hash : Bytes → UInt64)
    (topic : Str) (data : Data)
    (wide : Commitlog.msgSetHeaderLen ≤ (data.recordSet.getD []).length) :
    (∃ code, code ≠ .none ∧ (produce lower hash topic data).run b = .ok (code, none) b) ∨
    ∃ b' offset, (produce lower hash topic data).run b = .ok (.none, some offset) b' ∧
      Rented b' (produced.push topic data.partition (data.recordSet.getD [])) ∧
      ∀ r replica n, Tenant b r replica n → ¬ replica.serves topic data.partition →
        Untouched n b b' := by
  have lodged (held : Replica) (inside : held ∈ b.replicas) (n : Nat) (taken : held.log = some n) :
      n < b.logs.length := by
    obtain ⟨r, here⟩ := mem_iff_getElem?.mp inside
    obtain ⟨log, there, -⟩ := tenants.holds r held n ⟨here, taken⟩
    exact (List.getElem?_eq_some_iff.mp there).1
  rcases tenants.housed.produce tenants.linked lodged hash topic data wide with
    refused | ⟨replica, n, log, disk, segs, log', older', active', here, taken, there, ran, same, housed,
      untouched, listing⟩
  · exact .inl refused
  · right
    obtain ⟨r, listed, present, own, id⟩ := tenants.linked.found here
    have serves : replica.serves topic data.partition := Replica.serves_iff.mpr ⟨own, id⟩
    have tenant : Tenant b r replica n := ⟨present, taken⟩
    obtain ⟨log₀, there₀, opts, has⟩ := tenants.holds r replica n tenant
    obtain rfl := Option.some.inj (there.symm.trans there₀)
    have inside := (List.getElem?_eq_some_iff.mp there).1
    have other {r' held m} (tenant' : Tenant b r' held m) (apart : r' ≠ r) :
        m ≠ n ∧ ¬ (held.partition.topic = topic ∧ held.partition.id = data.partition) := by
      constructor
      · rintro rfl
        exact apart (tenants.log_inj tenant' tenant)
      · rintro ⟨rfl, same⟩
        have placed := tenants.placed r' held m tenant'
        rw [same, listed] at placed
        exact apart (Option.some.inj placed).symm
    have kept : Tenant { b with disk, segs, logs := b.logs.set n log' } = Tenant b := tenant_same rfl
    refine ⟨_, _, ran, ⟨_, older', active', ?_, housed, ?_, by rw [kept]; exact tenants.placed,
      by rw [kept]; exact tenants.single, ?_, ?_, ?_⟩, fun r' held m tenant' apart => ?_⟩
    · exact ⟨tenants.linked.listed, tenants.linked.filled, tenants.linked.held, tenants.linked.leading⟩
    · rw [kept]
      intro r' held m tenant'
      by_cases place : r' = r
      · subst place
        obtain rfl := Option.some.inj (present.symm.trans tenant'.here)
        obtain rfl := Option.some.inj (taken.symm.trans tenant'.log)
        refine ⟨log', getElem?_set_self inside, by rw [same]; exact opts, ?_⟩
        rw [Function.update_self, has, own, id, Produced.push, if_pos ⟨rfl, rfl⟩,
          Commitlog.stampFrom_append, Commitlog.Ledger.length_stampFrom, Nat.zero_add]
        rfl
      · obtain ⟨otherLog, otherKey⟩ := other tenant' place
        obtain ⟨log₁, there₁, opts₁, has₁⟩ := tenants.holds r' held m tenant'
        refine ⟨log₁, (getElem?_set_ne otherLog.symm).trans there₁, opts₁, ?_⟩
        rw [Function.update_of_ne otherLog, has₁, Produced.push, if_neg otherKey]
    · rw [kept]
      intro m log₁ here
      by_cases place : m = n
      · subst place
        exact ⟨r, replica, tenant⟩
      · rw [getElem?_set_ne fun same => place same.symm] at here
        exact tenants.owned m log₁ here
    · rw [kept]
      intro i unused
      refine (listing _ ?_).trans (tenants.vacant i unused)
      rw [opts]
      exact fun same => unused r replica n tenant (logDir_inj same).symm
    · rw [kept]
      intro t i unused
      have apart := unused r replica n tenant
      rw [Produced.push, if_neg fun same => apart (by rw [same.1, same.2]; exact serves)]
      exact tenants.unproduced t i unused
    · refine untouched m ?_
      rintro rfl
      obtain rfl := tenants.log_inj tenant' tenant
      obtain rfl := Option.some.inj (present.symm.trans tenant'.here)
      exact apart serves

end

/-- From the start of a log that has enough bytes, the loop of `handleFetch` takes all of them. -/
theorem fetchLoop_run {opts : Commitlog.Options} {rs : List Bytes} {older : List View} {active : View}
    {w : Commitlog.World} (kept : Commitlog.Kept opts rs older active w) {minBytes : Int32}
    (positive : 0 < minBytes.toInt) (enough : minBytes.toInt ≤ rs.flatten.length)
    (small : rs.flatten.length < 2147483648) :
    (fetchLoop minBytes 2 ⟨0, 0⟩ 0 none).run w = .ok (.ok (some rs.flatten)) w := by
  obtain ⟨r, -, listed⟩ := kept.newReader
  have place : Place w 0 0 := Commitlog.place_of_segment listed (Nat.zero_le _)
  obtain ⟨idx, pos, -, -, round⟩ := fetchLoop_round kept.rep.files.quiet kept.rep.live place
    (Int32.lt_iff_toInt_lt.mpr positive : 0 < minBytes)
  have done : ¬ 0 + Int32.ofNat rs.flatten.length < minBytes := by
    rw [Int32.lt_iff_toInt_lt, Int32.zero_add, Int32.toInt_ofNat_of_lt (by omega)]
    omega
  rw [Commitlog.remaining_start, kept.contents, Int.natCast_zero] at round
  rw [round, fetchLoop, if_neg done]
  rfl

theorem Tenants.fetch (tenants : Tenants b produced rs older active)
    {n : Nat} {minBytes : Int32} (p : FetchPartition) (here : found b topic p.partition = some replica)
    (taken : replica.log = some n) (led : replica.partition.leader = b.cluster.id)
    (start : p.fetchOffset = 0) (positive : 0 < minBytes.toInt)
    (enough : minBytes.toInt ≤ (Ledger.stampFrom 0 (produced topic p.partition)).flatten.length)
    (small : (Ledger.stampFrom 0 (produced topic p.partition)).flatten.length < 2147483648) :
    (fetch minBytes topic p).run b = .ok (.none, some ((produced topic p.partition).length - 1,
      some (Ledger.stampFrom 0 (produced topic p.partition)).flatten)) b := by
  obtain ⟨r, listed, present, own, id⟩ := tenants.linked.found here
  obtain ⟨log, there, opts, has⟩ := tenants.holds r replica n ⟨present, taken⟩
  obtain ⟨-, kept⟩ := tenants.housed.kept n log there
  rw [own, id] at has
  rw [← has] at enough small
  obtain ⟨-, opened, -⟩ := kept.newReader
  have looked : (findReplica topic p.partition).run b = .ok (some r) b := by rw [← listed]; rfl
  have named : (onCluster configID).run b = .ok b.cluster.id b := rfl
  have newest : (onLog n Commitlog.newestOffset).run b =
      .ok ((produced topic p.partition).length : Int) b := by
    refine onLog_unchanged there ?_
    rw [kept.rep.newestOffset, kept.next, has, Commitlog.Ledger.length_stampFrom]
  unfold Broker.fetch
  rw [bind_ok looked]
  dsimp only
  rw [bind_ok (getReplica_run present), bind_ok named, if_neg (not_not.mpr led)]
  simp only [taken, start]
  rw [bind_ok (attempt_ok (onLog_unchanged there opened))]
  dsimp only
  rw [bind_ok (onLog_unchanged there (fetchLoop_run kept positive enough small))]
  dsimp only
  rw [bind_ok newest, has]
  rfl

end Jocko.Broker
