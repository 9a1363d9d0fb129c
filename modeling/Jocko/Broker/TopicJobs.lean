import Jocko.Broker.TopicTables

namespace Jocko.Broker.TopicJobs

open Go MemDB Fsm Protocol Cluster List Option

/-- Where a goroutine stands that changes the topics or the partitions: one that `withTimeout`
runs for a topic of a request, or the one that handles a failed member. -/
inductive Job where
  | create (req : CreateTopicRequest)
  | register (topic : Str) (ps : List Fsm.Partition)
  | place (ps left : List Fsm.Partition)
  | delete (topic : Str)
  | failed (m : SerfMember)
  | survey (lost : Int32)
  | regroup (lost : Int32) (led : List Fsm.Partition)
  | reassign (lost : Int32) (led : List Fsm.Partition) (passing : List Fsm.Node)
      (left : List Fsm.Partition)

/-- The broker with the goroutines that are under way. -/
structure Work where
  broker : Broker
  jobs : List Job

/-- What happens next: a round of a request starts its goroutine, a member fails, or one of the
goroutines goes on. `asked` is the topic of the round and `req` the one that the goroutine
finds in the loop variable when it reads it, which may be that of a later round. -/
inductive Event where
  | create (asked req : CreateTopicRequest)
  | delete (topic : Str)
  | failed (m : SerfMember)
  | go (i : Nat)

/-- The goroutine goes on behind the call, or returns its error. -/
def proceed {α : Type} (call : Call Cluster α) (next : Job) : Call Broker (Option Job) := do
  match ← attempt (onCluster call) with
  | .error _ => return none
  | .ok _ => return some next

section

variable (lower : Str → Str)

/-- What a goroutine does before another one may go on: it reads the state once, or writes to
raft once. The loop over the groups is one step, as it leaves the topics and the partitions
alone. -/
def Job.step : Job → Call Broker (Option Job)
  | .create req => do
    let s ← onCluster state
    if (s.getTopic lower req.topic).2.isSome then return none
    else
      match ← onCluster (buildPartitions req.topic req.numPartitions req.replicationFactor) with
      | .error _ => return none
      | .ok ps => return some (.register req.topic ps)
  | .register topic ps =>
    proceed (raftApply lower (.registerTopic (newTopic topic ps))) (.place ps ps)
  | .place ps (p :: left) => proceed (raftApply lower (.registerPartition p)) (.place ps left)
  | .place ps [] => do
    let req : LeaderAndISRRequest := ⟨0, ← onCluster configID, 0, ps.map createdState, []⟩
    let _ ← attempt (announce lower req (← onCluster brokers))
    return none
  | .delete topic => do
    let _ ← deleteTopic lower topic
    return none
  | .failed m =>
    match isBroker m with
    | none => return none
    | some broker =>
      proceed (raftApply lower (.registerNode (criticalNode m broker))) (.survey broker.id)
  | .survey lost => do
    let s ← onCluster state
    return some (.regroup lost (led lower lost s))
  | .regroup lost led => do
    let s ← onCluster state
    let passing ← lift (passingNodes lost ((s.getNodes lower).2.map Obj.val))
    proceed (reassignGroups lower passing (s.getGroupsByCoordinator lower lost).2)
      (.reassign lost led passing led)
  | .reassign lost led passing (p :: left) => do
    let node ← onCluster (pickNode passing)
    proceed (raftApply lower (.registerPartition (reassigned lost p node)))
      (.reassign lost led passing left)
  | .reassign _ led passing [] => do
    let req : LeaderAndISRRequest := ⟨0, ← onCluster configID, 0, led.map reassignedState, []⟩
    let _ ← attempt (onCluster (tellBrokers req passing))
    return none

/-- A panic of one goroutine ends them all. -/
def event : Event → Call Work Unit
  | .create asked req => ⟨fun w =>
    if w.broker.controller = true ∧ ¬ Int16.ofNat w.broker.members < asked.replicationFactor then
      .ok () { w with jobs := w.jobs ++ [.create req] }
    else .ok () w⟩
  | .delete topic => ⟨fun w =>
    if w.broker.controller = true then .ok () { w with jobs := w.jobs ++ [.delete topic] }
    else .ok () w⟩
  | .failed m => ⟨fun w => .ok () { w with jobs := w.jobs ++ [.failed m] }⟩
  | .go i => ⟨fun w =>
    match w.jobs[i]? with
    | none => .ok () w
    | some job =>
      match (job.step lower).run w.broker with
      | .ok next b => .ok () ⟨b, w.jobs.take i ++ next.toList ++ w.jobs.drop (i + 1)⟩
      | .error why b => .error why { w with broker := b }⟩

def events : List Event → Call Work Unit
  | [] => return ()
  | e :: es => do
    event lower e
    events es

/-- A property of every state that the broker goes through. -/
def Along (P : Work → Prop) : List Event → Work → Prop
  | [], w => P w
  | e :: es, w => P w ∧
      match (event lower e).run w with
      | .ok _ w' => Along P es w'
      | .error _ w' => P w'

/-- No topic with partitions is registered, a deletion finds no topic or one without partitions,
and the failed broker is no replica of a partition that another takes over. -/
def Job.Safe (s : Store) : Job → Prop
  | .register topic ps => topic = [] ∨ ps = []
  | .delete topic => ∀ row ∈ (s.getTopic lower topic).2, row.val.partitions.entries = []
  | .reassign lost _ passing (p :: _) => passing ≠ [] → lost ∉ p.ar
  | _ => True

def SafeEvent (w : Work) : Event → Prop
  | .go i => ∀ job ∈ w.jobs[i]?, job.Safe lower w.broker.cluster.fsm
  | _ => True

def SafeEvents : List Event → Work → Prop
  | [], _ => True
  | e :: es, w => SafeEvent lower w e ∧
      (((event lower e).run w).stopped = none → SafeEvents es ((event lower e).run w).state)

instance (s : Store) (job : Job) : Decidable (job.Safe lower s) := by
  unfold Job.Safe
  split <;> infer_instance

instance (w : Work) (e : Event) : Decidable (SafeEvent lower w e) := by
  unfold SafeEvent
  split <;> infer_instance

instance : (es : List Event) → (w : Work) → Decidable (SafeEvents lower es w)
  | [], _ => .isTrue trivial
  | e :: es, w =>
    have := instDecidableSafeEvents es ((event lower e).run w).state
    inferInstanceAs (Decidable (_ ∧ _))

/-- Both tables tell the same replicas. -/
structure Settled (replicas : Str → Int32 → Option (List Int32)) (c : Cluster) : Prop where
  reliable : Reliable c
  tidy : c.fsm.Tidy lower
  stored : ∀ t i, storedReplicas c.fsm t i = replicas t i
  listed : ∀ t i, listedReplicas lower c.fsm t i = replicas t i

/-- What a goroutine has read still holds, as long as the tables stay as they are. -/
def Job.Fits (replicas : Str → Int32 → Option (List Int32)) : Job → Prop
  | .register topic ps => Unlisted lower topic replicas ∧ Built topic ps
  | .place _ left => ∀ p ∈ left, p.topic = []
  | .regroup _ led => ∀ p ∈ led, p.topic ≠ [] ∧ replicas p.topic p.partition = some p.ar
  | .reassign _ _ _ left => ∀ p ∈ left, p.topic ≠ [] ∧ replicas p.topic p.partition = some p.ar
  | _ => True

/-- A step that leaves the topics and the partitions alone. -/
def Aside (c c' : Cluster) : Prop :=
  c.fsm.Tidy lower → c'.raft = c.raft ∧ c'.fsm.topics = c.fsm.topics ∧
    c'.fsm.partitions = c.fsm.partitions ∧ c'.fsm.Tidy lower

instance : IsPreorder Cluster (Aside lower) where
  refl c tidy := ⟨rfl, rfl, rfl, tidy⟩
  trans := by
    intro a b c first second tidy
    obtain ⟨raft, topics, partitions, tidy'⟩ := first tidy
    obtain ⟨raft', topics', partitions', tidy''⟩ := second tidy'
    exact ⟨raft'.trans raft, topics'.trans topics, partitions'.trans partitions, tidy''⟩

/-- What a step leaves: the tables as they were if it is safe, and tables that differ if not. -/
def Keeps (replicas : Str → Int32 → Option (List Int32)) (safe : Prop)
    (r : Result Broker (Option Job)) : Prop :=
  (safe → Settled lower replicas r.state.cluster ∧
    ∀ next b, r = .ok (some next) b → next.Fits lower replicas) ∧
  (¬ safe → ¬ Consistent lower r.state.cluster.fsm)

end

variable {lower : Str → Str} {replicas : Str → Int32 → Option (List Int32)} {c c' : Cluster}

theorem Aside.of_draws (draws : Draws c c') : Aside lower c c' := by
  obtain ⟨listed, drawn, rfl⟩ := draws
  exact fun tidy => ⟨rfl, rfl, rfl, tidy⟩

theorem Aside.of_tells {req : LeaderAndISRRequest} (tells : Tells req c c') :
    Aside lower c c' := by
  obtain ⟨dialled, told, rfl, -⟩ := tells
  exact fun tidy => ⟨rfl, rfl, rfl, tidy⟩

theorem raftApply_aside {command : Command}
    (written : ∀ s : Store, s.Tidy lower → ∀ idx, ∃ nodes groups index,
      (s.apply lower idx command).1 = { s with nodes, groups, index } ∧
      Store.Tidy lower { s with nodes, groups, index }) :
    (raftApply lower command).Moves (Aside lower) := by
  intro c tidy
  cases next : c.raft c.applied with
  | error cause =>
    rw [raftApply_error next]
    exact ⟨rfl, rfl, rfl, tidy⟩
  | ok idx =>
    obtain ⟨nodes, groups, index, same, tidy'⟩ := written c.fsm tidy idx
    rw [raftApply_ok next, same]
    exact ⟨rfl, rfl, rfl, tidy'⟩

theorem registerNode_aside (node : Fsm.Node) :
    (raftApply lower (.registerNode node)).Moves (Aside lower) := by
  refine raftApply_aside fun s tidy idx => ?_
  obtain ⟨nodes, index, -, written, tidy', -⟩ := tidy.registerNode idx node
  exact ⟨nodes, s.groups, index, written, tidy'⟩

theorem registerGroup_aside (group : Fsm.Group) :
    (raftApply lower (.registerGroup group)).Moves (Aside lower) := by
  refine raftApply_aside fun s tidy idx => ?_
  obtain ⟨groups, index, written, tidy'⟩ := tidy.registerGroup idx group
  exact ⟨s.nodes, groups, index, written, tidy'⟩

theorem reassignGroups_aside (passing : List Fsm.Node) (groups : List (Obj Fsm.Group)) :
    (reassignGroups lower passing groups).Moves (Aside lower) := by
  have edits (row : Obj Fsm.Group) (f : Fsm.Group → Fsm.Group) :
      (GroupRef.edit ⟨some row.addr, row.val⟩ f).Moves (Aside lower) :=
    fun c tidy => ⟨rfl, rfl, rfl, tidy.index, tidy.nodes, tidy.topics, tidy.partitions⟩
  exact reassignGroups_moves (fun n c => .of_draws (intn_draws n c)) edits registerGroup_aside
    passing groups

theorem Settled.aside (settled : Settled lower replicas c) (aside : Aside lower c c') :
    Settled lower replicas c' := by
  obtain ⟨raft, topics, partitions, tidy⟩ := aside settled.tidy
  refine ⟨fun i => by rw [raft]; exact settled.reliable i, tidy, fun t i => ?_, fun t i => ?_⟩
  · rw [← settled.stored t i]
    simp only [storedReplicas, Kind.row?, Kind.first, partitionKind, partitions]
  · rw [← settled.listed t i]
    simp only [listedReplicas, Kind.row?, Kind.first, topicKind, topics]

theorem Settled.consistent (settled : Settled lower replicas c) : Consistent lower c.fsm :=
  fun t i => (settled.stored t i).trans (settled.listed t i).symm

theorem proceed_ok {α : Type} {call : Call Cluster α} {value : α} {next : Job} {b : Broker}
    (returned : call.run b.cluster = .ok value c) :
    (proceed call next).run b = .ok (some next) { b with cluster := c } :=
  bind_ok (attempt_ok (onCluster_ok returned))

section

variable {b : Broker} (settled : Settled lower replicas b.cluster)
include settled

theorem Keeps.of_aside {r : Result Broker (Option Job)}
    (aside : Aside lower b.cluster r.state.cluster)
    (fits : ∀ next b', r = .ok (some next) b' → next.Fits lower replicas) :
    Keeps lower replicas True r :=
  ⟨fun _ => ⟨settled.aside aside, fits⟩, fun absurd => (absurd trivial).elim⟩

theorem create_keeps (req : CreateTopicRequest) :
    Keeps lower replicas True (((Job.create req).step lower).run b) := by
  have read : (onCluster state).run b = .ok b.cluster.fsm b := rfl
  unfold Job.step
  rw [bind_ok read]
  split
  · exact Keeps.of_aside settled (refl_of (Aside lower) _) (by rintro _ _ ⟨⟩)
  · rename_i unknown
    have draws := buildPartitions_draws req.topic req.numPartitions req.replicationFactor b.cluster
    cases made : (buildPartitions req.topic req.numPartitions req.replicationFactor).run
        b.cluster with
    | error why c =>
      rw [made] at draws
      rw [bind_error (onCluster_error made)]
      exact Keeps.of_aside settled (.of_draws draws) (by rintro _ _ ⟨⟩)
    | ok outcome c =>
      rw [made] at draws
      rw [bind_ok (onCluster_ok made)]
      cases outcome with
      | error code => exact Keeps.of_aside settled (.of_draws draws) (by rintro _ _ ⟨⟩)
      | ok ps =>
        refine Keeps.of_aside settled (.of_draws draws) ?_
        rintro _ _ ⟨⟩
        have absent : (b.cluster.fsm.getTopic lower req.topic).2 = none := by simpa using unknown
        exact ⟨fun t i key => (settled.listed t i).symm.trans
          (Unlisted.of_absent (map_eq_none_iff.mpr absent) t i key), buildPartitions_built made⟩

theorem register_keeps {topic : Str} {ps : List Fsm.Partition}
    (fits : (Job.register topic ps).Fits lower replicas) :
    Keeps lower replicas (topic = [] ∨ ps = [])
      (((Job.register topic ps).step lower).run b) := by
  obtain ⟨free, built⟩ := fits
  obtain ⟨idx, applied⟩ := raftApply_reliable lower settled.reliable
    (.registerTopic (newTopic topic ps))
  obtain ⟨topics, index, written, tidy, listed⟩ := registerTopic_listed settled.tidy idx topic ps
    fun t i key => (settled.listed t i).trans (free t i key)
  rw [written] at applied
  rw [Job.step, proceed_ok applied]
  constructor
  · intro safe
    refine ⟨⟨settled.reliable, tidy, settled.stored, fun t i => (listed t i).trans ?_⟩, ?_⟩
    · split
      · rename_i here
        obtain ⟨named, rfl⟩ := here
        rw [safe.resolve_left named, free t i rfl]
        rfl
      · exact settled.listed t i
    · rintro _ _ ⟨⟩ p inside
      rcases safe with unnamed | none
      · exact (built.topic p inside).trans unnamed
      · rw [none] at inside
        cases inside
  · intro unsafe' consistent
    obtain ⟨named, some⟩ := not_or.mp unsafe'
    obtain ⟨front, p, rfl⟩ := (eq_nil_or_concat ps).resolve_left some
    have none := (settled.stored topic p.id).trans (free topic p.id rfl)
    have listed' := none.symm.trans ((consistent topic p.id).trans (listed topic p.id))
    rw [if_pos ⟨named, rfl⟩] at listed'
    simp [assignment] at listed'

theorem delete_keeps (topic : Str) :
    Keeps lower replicas ((Job.delete topic).Safe lower b.cluster.fsm)
      (((Job.delete topic).step lower).run b) := by
  obtain ⟨idx, applied⟩ := raftApply_reliable lower settled.reliable
    (.deregisterTopic ⟨[], topic, none, none, false, 0, 0⟩)
  obtain ⟨topics, index, written, tidy, byKey⟩ := settled.tidy.deregisterTopic idx
    ⟨[], topic, none, none, false, 0, 0⟩
  rw [written] at applied
  have goes : ((Job.delete topic).step lower).run b = _ :=
    bind_ok (bind_ok (attempt_ok (onCluster_ok applied)))
  have agree : Consistent lower { b.cluster.fsm with topics, index } ↔ _ :=
    consistent_delete_iff settled.tidy settled.consistent rfl byKey
  rw [goes]
  refine ⟨fun safe => ⟨⟨settled.reliable, tidy, settled.stored, fun t i => ?_⟩, by rintro _ _ ⟨⟩⟩,
    fun unsafe' consistent => unsafe' (agree.mp consistent)⟩
  exact (agree.mpr safe t i).symm.trans (settled.stored t i)

theorem proceed_keeps {α : Type} {call : Call Cluster α} {next : Job}
    (aside : Aside lower b.cluster (call.run b.cluster).state)
    (fits : next.Fits lower replicas) :
    Keeps lower replicas True ((proceed call next).run b) := by
  have ends : ((proceed call next).run b).state.cluster = (call.run b.cluster).state := by
    unfold proceed
    rw [bind_state (fun outcome s => by cases outcome <;> rfl), attempt_state, onCluster_state]
  refine Keeps.of_aside settled (by rw [ends]; exact aside) fun next' b' goes => ?_
  obtain ⟨outcome, b₁, -, returned⟩ := bind_eq_ok goes
  cases outcome with
  | error cause => cases returned
  | ok value =>
    cases returned
    exact fits

theorem failed_keeps (m : SerfMember) :
    Keeps lower replicas True (((Job.failed m).step lower).run b) := by
  rw [Job.step]
  split
  · exact Keeps.of_aside settled (refl_of (Aside lower) _) (by rintro _ _ ⟨⟩)
  · exact proceed_keeps settled (registerNode_aside _ _) trivial

theorem survey_keeps (lost : Int32) :
    Keeps lower replicas True (((Job.survey lost).step lower).run b) := by
  refine Keeps.of_aside settled (refl_of (Aside lower) _) ?_
  rintro _ _ ⟨⟩ p inside
  refine ⟨led_named settled.tidy lost p inside, ?_⟩
  rw [← settled.stored, storedReplicas, (settled.tidy.mem_partitionsByLeader.mp inside).1]
  rfl

theorem regroup_keeps {lost : Int32} {led : List Fsm.Partition}
    (fits : (Job.regroup lost led).Fits lower replicas) :
    Keeps lower replicas True (((Job.regroup lost led).step lower).run b) := by
  have read : (onCluster state).run b = .ok b.cluster.fsm b := rfl
  rw [Job.step, bind_ok read]
  cases found : passingNodes lost ((b.cluster.fsm.getNodes lower).2.map Obj.val) with
  | error why => exact Keeps.of_aside settled (refl_of (Aside lower) _) (by rintro _ _ ⟨⟩)
  | ok passing =>
    have passed : (lift (.ok passing : Except Stop _)).run b = .ok passing b := rfl
    rw [bind_ok passed]
    exact proceed_keeps settled (reassignGroups_aside _ _ _) fits

/-- A partition of the lost broker keeps its replicas if that one was none of them. -/
theorem reassign_keeps {lost : Int32} {led left : List Fsm.Partition} {passing : List Fsm.Node}
    {p : Fsm.Partition} (fits : (Job.reassign lost led passing (p :: left)).Fits lower replicas) :
    Keeps lower replicas (passing ≠ [] → lost ∉ p.ar)
      (((Job.reassign lost led passing (p :: left)).step lower).run b) := by
  obtain ⟨named, here⟩ := fits p (mem_cons_self ..)
  rw [Job.step]
  by_cases some : passing = []
  · subst some
    exact ⟨fun _ => ⟨settled, by rintro _ _ ⟨⟩⟩, fun unsafe' => absurd nofun unsafe'⟩
  · obtain ⟨node, chosen⟩ := exists_chosen (c := b.cluster) some 0
    obtain ⟨idx, applied⟩ := raftApply_reliable lower
      (c := { b.cluster with drawn := b.cluster.drawn + 1 }) settled.reliable
      (.registerPartition (reassigned lost p node))
    obtain ⟨partitions, index, written, tidy, stored⟩ :=
      registerPartition_replicas settled.tidy idx (reassigned lost p node)
    rw [written] at applied
    rw [bind_ok (onCluster_ok (pickNode_chosen some chosen)),
      proceed_ok (b := { b with cluster := _ }) applied]
    constructor
    · intro safe
      have kept : p.ar.filter (· ≠ lost) = p.ar := by
        refine filter_eq_self.mpr fun r replica => ?_
        have other : r ≠ lost := fun equal => safe some (equal ▸ replica)
        simpa using other
      refine ⟨⟨settled.reliable, tidy, fun t i => (stored t i).trans ?_, settled.listed⟩, ?_⟩
      · rw [settled.stored, withPartition]
        split
        · rename_i same
          rw [same.2.1, same.2.2]
          exact (congrArg Option.some kept).trans here.symm
        · rfl
      · rintro _ _ ⟨⟩ q inside
        exact fits q (mem_cons_of_mem _ inside)
    · intro unsafe' consistent
      obtain ⟨-, replica⟩ := Classical.not_imp.mp unsafe'
      have after := (stored p.topic p.partition).symm.trans
        ((consistent p.topic p.partition).trans (settled.listed p.topic p.partition))
      rw [withPartition, if_pos ⟨named, rfl, rfl⟩, here] at after
      have kept := filter_eq_self.mp (Option.some.inj after)
      have gone := kept lost (Classical.not_not.mp replica)
      simp at gone

theorem ending_keeps {α : Type} {call : Call Broker α} (b' : Broker)
    (aside : Aside lower b.cluster (call.run b').state.cluster) :
    Keeps lower replicas True ((do let _ ← attempt call; return none).run b') := by
  refine Keeps.of_aside settled ?_ fun next b₁ goes => ?_
  · rw [bind_state fun _ _ => rfl, attempt_state]
    exact aside
  · obtain ⟨outcome, b₂, -, returned⟩ := bind_eq_ok goes
    cases returned

theorem step_keeps {job : Job} (fits : job.Fits lower replicas) :
    Keeps lower replicas (job.Safe lower b.cluster.fsm) ((job.step lower).run b) := by
  cases job with
  | create req => exact create_keeps settled req
  | register topic ps => exact register_keeps settled fits
  | place ps left =>
    cases left with
    | nil =>
      have tells := @announce_announces lower (creationRequest b.cluster ps)
        ((b.cluster.order b.cluster.listed).pick (b.cluster.lookup.addressToBroker.map Prod.snd))
        { b with cluster := { b.cluster with listed := b.cluster.listed + 1 } }
      have aside := @Aside.of_tells lower _ _ _ tells
      exact ending_keeps settled _ aside
    | cons p left =>
      obtain ⟨idx, applied⟩ := raftApply_reliable lower settled.reliable (.registerPartition p)
      rw [Store.Tidy.registerPartition_unnamed _ idx (fits p (mem_cons_self ..))] at applied
      rw [Job.step, proceed_ok applied]
      refine Keeps.of_aside settled (fun tidy => ⟨rfl, rfl, rfl, tidy⟩) ?_
      rintro _ _ ⟨⟩ q inside
      exact fits q (mem_cons_of_mem _ inside)
  | delete topic => exact delete_keeps settled topic
  | failed m => exact failed_keeps settled m
  | survey lost => exact survey_keeps settled lost
  | regroup lost led => exact regroup_keeps settled fits
  | reassign lost led passing left =>
    cases left with
    | nil =>
      refine ending_keeps settled b ?_
      rw [onCluster_state]
      exact .of_tells (tellBrokers_tells _ passing b.cluster)
    | cons p left => exact reassign_keeps settled fits

end

variable {w : Work}

/-- What happens leaves the tables as they were if it is safe, and tables that differ if not. -/
theorem event_keeps (settled : Settled lower replicas w.broker.cluster)
    (fits : ∀ job ∈ w.jobs, job.Fits lower replicas) (e : Event) :
    (SafeEvent lower w e →
      Settled lower replicas ((event lower e).run w).state.broker.cluster ∧
      ∀ job ∈ ((event lower e).run w).state.jobs, job.Fits lower replicas) ∧
    (¬ SafeEvent lower w e →
      ¬ Consistent lower ((event lower e).run w).state.broker.cluster.fsm) := by
  cases e with
  | create asked req =>
    refine ⟨fun _ => ?_, fun absurd => (absurd trivial).elim⟩
    unfold event
    dsimp only
    split
    · exact ⟨settled, forall_mem_append.mpr ⟨fits, forall_mem_singleton.mpr trivial⟩⟩
    · exact ⟨settled, fits⟩
  | delete topic =>
    refine ⟨fun _ => ?_, fun absurd => (absurd trivial).elim⟩
    unfold event
    dsimp only
    split
    · exact ⟨settled, forall_mem_append.mpr ⟨fits, forall_mem_singleton.mpr trivial⟩⟩
    · exact ⟨settled, fits⟩
  | failed m =>
    refine ⟨fun _ => ⟨settled, ?_⟩, fun absurd => (absurd trivial).elim⟩
    exact forall_mem_append.mpr ⟨fits, forall_mem_singleton.mpr trivial⟩
  | go i =>
    cases found : w.jobs[i]? with
    | none =>
      have stays : (event lower (.go i)).run w = .ok () w := by simp only [event, found]
      rw [stays]
      refine ⟨fun _ => ⟨settled, fits⟩, fun unsafe' => absurd (fun job here => ?_) unsafe'⟩
      rw [found] at here
      cases here
    | some job =>
      have safe : SafeEvent lower w (.go i) ↔ job.Safe lower w.broker.cluster.fsm := by
        simp [SafeEvent, found]
      obtain ⟨kept, lost⟩ := step_keeps settled (fits job (mem_of_getElem? found))
      rw [safe]
      cases ends : (job.step lower).run w.broker with
      | error why b =>
        have stops : (event lower (.go i)).run w = .error why { w with broker := b } := by
          simp only [event, found, ends]
        rw [ends] at kept lost
        rw [stops]
        exact ⟨fun ok => ⟨(kept ok).1, fits⟩, lost⟩
      | ok next b =>
        have goes : (event lower (.go i)).run w =
            .ok () ⟨b, w.jobs.take i ++ next.toList ++ w.jobs.drop (i + 1)⟩ := by
          simp only [event, found, ends]
        rw [ends] at kept lost
        rw [goes]
        refine ⟨fun ok => ⟨(kept ok).1, fun job' inside => ?_⟩, lost⟩
        rcases mem_append.mp inside with before | behind
        · rcases mem_append.mp before with first | here
          · exact fits job' (mem_of_mem_take first)
          · exact (kept ok).2 job' b (by rw [mem_toList.mp here])
        · exact fits job' (mem_of_mem_drop behind)

theorem along_consistent_iff (es : List Event) (settled : Settled lower replicas w.broker.cluster)
    (fits : ∀ job ∈ w.jobs, job.Fits lower replicas) :
    Along lower (fun w => Consistent lower w.broker.cluster.fsm) es w ↔
      SafeEvents lower es w := by
  induction es generalizing w with
  | nil => exact iff_of_true settled.consistent trivial
  | cons e es ih =>
    obtain ⟨kept, lost⟩ := event_keeps settled fits e
    cases ends : (event lower e).run w with
    | error why w' =>
      rw [ends] at kept lost
      simp only [Along, SafeEvents, ends]
      refine ⟨fun all => ⟨?_, by rintro ⟨⟩⟩, fun safe => ⟨settled.consistent, ?_⟩⟩
      · exact Classical.not_not.mp fun unsafe' => lost unsafe' all.2
      · exact (kept safe.1).1.consistent
    | ok _ w' =>
      rw [ends] at kept lost
      simp only [Along, SafeEvents, ends]
      constructor
      · rintro ⟨-, rest⟩
        have here : Consistent lower w'.broker.cluster.fsm := by
          cases es with
          | nil => exact rest
          | cons e' es => exact rest.1
        have safe : SafeEvent lower w e := Classical.not_not.mp fun unsafe' => lost unsafe' here
        exact ⟨safe, fun _ => (ih (kept safe).1 (kept safe).2).mp rest⟩
      · rintro ⟨safe, rest⟩
        exact ⟨settled.consistent, (ih (kept safe).1 (kept safe).2).mpr (rest rfl)⟩

/-- Through any requests and failures, in any order of their steps, the tables of topics and
partitions agree after every write if and only if no topic with partitions is registered, no
deletion finds a topic with partitions, and no failed broker is a replica of a partition that
another takes over from it. -/
theorem jobs_consistent_iff (es : List Event) {b : Broker} (reliable : Reliable b.cluster)
    (tidy : b.cluster.fsm.Tidy lower) (consistent : Consistent lower b.cluster.fsm) :
    Along lower (fun w => Consistent lower w.broker.cluster.fsm) es ⟨b, []⟩ ↔
      SafeEvents lower es ⟨b, []⟩ :=
  along_consistent_iff es (w := ⟨b, []⟩) ⟨reliable, tidy, consistent, fun _ _ => rfl⟩ nofun

/-- Two creations of a topic without partitions, the second of which has not seen the first, and
a deletion. -/
theorem jobs_consistent_empty :
    let q : CreateTopicRequest := ⟨ascii "t", 0, 1, none, none⟩
    Along id (fun w => Consistent id w.broker.cluster.fsm)
      [.create q q, .create q q, .go 0, .go 1, .go 0, .go 1, .delete (ascii "t"), .go 2]
      ⟨started (connected Store.new), []⟩ := by
  refine (jobs_consistent_iff _ (fun _ => ⟨9, rfl⟩) Store.Clean.new.tidy (fun t i => rfl)).mpr ?_
  decide +kernel

/-- Between the writes of a creation the topic lists a partition that has no row, and the
partition of a deleted topic is still there. -/
theorem delete_leaves_partition :
    let q : CreateTopicRequest := ⟨ascii "t", 1, 2, none, none⟩
    let after (es : List Event) :=
      ((events id es).run ⟨started (connected Store.new), []⟩).state.broker.cluster.fsm
    let registered := after [.create q q, .go 0, .go 0]
    let deleted := after [.create q q, .go 0, .go 0, .go 0, .go 0, .delete (ascii "t"), .go 0]
    storedReplicas registered (ascii "t") 0 = none ∧
    listedReplicas id registered (ascii "t") 0 = some [1, 2] ∧
    storedReplicas deleted (ascii "t") 0 = some [1, 2] ∧
    listedReplicas id deleted (ascii "t") 0 = none := by
  decide +kernel

end Jocko.Broker.TopicJobs
