import Jocko.Broker.Hosting
import Jocko.Broker.Records
import Jocko.Commitlog.LogInvariant

namespace Jocko.Broker

open Go MemDB Fsm Protocol Cluster Option

/-- What a broker is asked to do with its replicas: a whole leader-and-ISR request, or one
partition of a produce or a fetch request. -/
inductive Handled where
  | leaderAndISR (req : LeaderAndISRRequest)
  | produce (topic : Str) (data : Data)
  | fetch (minBytes : Int32) (topic : Str) (p : FetchPartition)

/-- Something to handle, with the replicated state and the ring as they are by then. -/
structure Arrival where
  fsm : Store
  lookup : BrokerLookup
  handled : Handled

def Arrival.meet (e : Arrival) (b : Broker) : Broker :=
  { b with cluster := { b.cluster with fsm := e.fsm, lookup := e.lookup } }

section

variable (lower : Str → Str) (hash : Bytes → UInt64)

def handlePart : Handled → Call Broker Unit
  | .leaderAndISR req => do
    let _ ← handleLeaderAndISR lower req
  | .produce topic data => do
    let _ ← produce lower hash topic data
  | .fetch minBytes topic p => do
    let _ ← fetch minBytes topic p

/-- A property of every event in the state that it meets. -/
def Throughout (P : Broker → Handled → Prop) : List Arrival → Broker → Prop
  | [], _ => True
  | e :: es, b => P (e.meet b) e.handled ∧
      ∀ b', (handlePart lower hash e.handled).run (e.meet b) = .ok () b' → Throughout P es b'

/-- `handleProduce` calls `Append` on this log. -/
def Appends (b : Broker) (topic : Str) (partition : Int32) (log : Nat) : Prop :=
  (openLog lower topic partition).run b = .ok (.ok log) b

/-- The broker appends to the log of a partition only as its leader. Otherwise it answers an
error and changes nothing. -/
def LeaderWrites (b : Broker) : Handled → Prop
  | .produce topic data =>
    (∀ log, Appends lower b topic data.partition log → ∃ replica,
      found b topic data.partition = some replica ∧ replica.log = some log ∧
      replica.partition.leader = b.cluster.id) ∧
    ((∀ log, ¬ Appends lower b topic data.partition log) →
      ∃ code, code ≠ .none ∧ (produce lower hash topic data).run b = .ok (code, none) b)
  | _ => True

/-- A partition of a topic that is known, with a log on this broker, is led by it. -/
def Entitled (b : Broker) : Handled → Prop
  | .produce topic data => (b.cluster.fsm.getTopic lower topic).2.isSome →
      ∀ replica, found b topic data.partition = some replica → replica.log ≠ none →
        replica.partition.leader = b.cluster.id
  | _ => True

end

variable {lower : Str → Str} {hash : Bytes → UInt64} {b : Broker} {topic : Str} {partition : Int32}

/-- What `handleProduce` finds, in a broker without dangling references. -/
theorem openLog_run (linked : Linked b) : (openLog lower topic partition).run b = .ok
      (if (b.cluster.fsm.getTopic lower topic).2.isSome then
        ((found b topic partition).bind Replica.log).elim (.error .replicaNotAvailable) .ok
      else .error .unknownTopicOrPartition) b := by
  have read : (onCluster state).run b = .ok b.cluster.fsm b := rfl
  have looked : (findReplica topic partition).run b = .ok (b.lookup.lookup (topic, partition)) b := rfl
  unfold openLog findLog
  rw [bind_ok read]
  cases known : (b.cluster.fsm.getTopic lower topic).2 with
  | none => rfl
  | some row =>
    simp only [isSome_some, ↓reduceIte]
    rw [bind_ok looked]
    cases listed : b.lookup.lookup (topic, partition) with
    | none =>
      simp only [found, listed, bind_none]
      rfl
    | some r =>
      obtain ⟨replica, here, -⟩ := linked.listed topic partition r listed
      simp only [found, listed, bind_some, here]
      rw [bind_ok (getReplica_run here)]
      cases replica.log with
      | none => rfl
      | some log => rfl

theorem appends_iff (linked : Linked b) {log : Nat} : Appends lower b topic partition log ↔
      (b.cluster.fsm.getTopic lower topic).2.isSome ∧
        ∃ replica, found b topic partition = some replica ∧ replica.log = some log := by
  unfold Appends
  rw [openLog_run linked]
  cases known : (b.cluster.fsm.getTopic lower topic).2 with
  | none => simp
  | some row =>
    cases here : found b topic partition with
    | none => simp
    | some replica => cases held : replica.log <;> simp [held]

theorem produce_refused (linked : Linked b) {data : Data}
    (refused : ∀ log, ¬ Appends lower b topic data.partition log) :
    ∃ code, code ≠ .none ∧ (produce lower hash topic data).run b = .ok (code, none) b := by
  have admitted := @openLog_run lower b topic data.partition linked
  unfold produce
  cases known : (b.cluster.fsm.getTopic lower topic).2 with
  | none =>
    rw [known] at admitted
    exact ⟨.unknownTopicOrPartition, nofun, by rw [bind_ok admitted]; rfl⟩
  | some row =>
    cases held : (found b topic data.partition).bind Replica.log with
    | none =>
      rw [known, held] at admitted
      exact ⟨.replicaNotAvailable, nofun, by rw [bind_ok admitted]; rfl⟩
    | some log =>
      rw [known, held] at admitted
      exact absurd admitted (refused log)

theorem leaderWrites_iff (linked : Linked b) (h : Handled) :
    LeaderWrites lower hash b h ↔ Entitled lower b h := by
  cases h with
  | leaderAndISR req => exact Iff.rfl
  | fetch minBytes topic p => exact Iff.rfl
  | produce topic data =>
    refine ⟨fun writes known replica here held => ?_, fun entitled => ⟨fun log appends => ?_,
      produce_refused linked⟩⟩
    · obtain ⟨log, held⟩ := ne_none_iff_exists'.mp held
      obtain ⟨replica', here', -, led⟩ := writes.1 log ((appends_iff linked).mpr
        ⟨known, replica, here, held⟩)
      obtain rfl := some.inj (here.symm.trans here')
      exact led
    · obtain ⟨known, replica, here, held⟩ := (appends_iff linked).mp appends
      exact ⟨replica, here, held, entitled known replica here (by simp [held])⟩

/-- A step that touches only the logs and their files. -/
def OnLogs (b b' : Broker) : Prop := ∃ disk segs logs, b' = { b with disk, segs, logs }

instance : IsPreorder Broker OnLogs where
  refl b := ⟨b.disk, b.segs, b.logs, rfl⟩
  trans := by
    rintro a b c ⟨_, _, _, rfl⟩ ⟨disk, segs, logs, rfl⟩
    exact ⟨disk, segs, logs, rfl⟩

theorem OnLogs.linked {b' : Broker} (onLogs : OnLogs b b') (linked : Linked b) : Linked b' := by
  obtain ⟨disk, segs, logs, rfl⟩ := onLogs
  exact ⟨linked.listed, linked.filled, linked.held, linked.leading⟩

theorem onLog_onLogs {α : Type} (r : Nat) (call : Call Commitlog.World α) :
    (onLog r call).Moves OnLogs := onLog_state r call

theorem openLog_onLogs (topic : Str) (partition : Int32) :
    (openLog lower topic partition).Moves OnLogs := by
  unfold openLog findLog
  refine .bind (.of_unchanged fun _ => rfl) fun s => ?_
  split
  · exact .pure _
  · refine .bind (.of_unchanged fun _ => rfl) fun listed => ?_
    split
    · exact .pure _
    · refine .bind (.of_unchanged (getReplica_state _)) fun replica => ?_
      split <;> exact .pure _

theorem produce_onLogs (topic : Str) (data : Data) :
    (produce lower hash topic data).Moves OnLogs := by
  refine .bind (openLog_onLogs topic data.partition) fun admitted => ?_
  split
  · exact .pure _
  · refine .bind (.attempt (onLog_onLogs _ _)) fun appended => ?_
    split <;> exact .pure _

theorem fetch_onLogs (minBytes : Int32) (topic : Str) (p : FetchPartition) :
    (fetch minBytes topic p).Moves OnLogs := by
  refine .bind (.of_unchanged fun _ => rfl) fun listed => ?_
  split
  · exact .pure _
  · refine .bind (.of_unchanged (getReplica_state _)) fun replica => ?_
    refine .bind (.of_unchanged fun _ => rfl) fun id => ?_
    split
    · exact .pure _
    · split
      · exact .pure _
      · refine .bind (.attempt (onLog_onLogs _ _)) fun opened => ?_
        split
        · exact .pure _
        · refine .bind (onLog_onLogs _ _) fun copied => ?_
          split
          · exact .pure _
          · exact .bind (onLog_onLogs _ _) fun newest => .pure _

theorem handlePart_linked (linked : Linked b) (h : Handled) :
    Linked ((handlePart lower hash h).run b).state := by
  cases h with
  | leaderAndISR req =>
    unfold handlePart
    rw [bind_state fun _ _ => rfl]
    exact (handleLeaderAndISR_exclusive_iff req linked).1
  | produce topic data =>
    unfold handlePart
    rw [bind_state fun _ _ => rfl]
    exact (produce_onLogs topic data b).linked linked
  | fetch minBytes topic p =>
    unfold handlePart
    rw [bind_state fun _ _ => rfl]
    exact (fetch_onLogs minBytes topic p b).linked linked

/-- The partition 0 of `t` gets a leader, and then a record set. -/
def electsThenProduces (leader : Int32) : List Arrival :=
  [⟨oneTopic, (connected oneTopic).lookup, .leaderAndISR (elects leader).req⟩,
    ⟨oneTopic, (connected oneTopic).lookup, .produce (ascii "t") ⟨0, some (Commitlog.plainSet [7])⟩⟩]

end Jocko.Broker
