import Jocko.Broker.Tenants

namespace Jocko.Broker

open Go MemDB Fsm Protocol Cluster List
open Commitlog (Ledger.stampFrom)

/-- What a broker is asked: to create a topic, or to append to one partition. -/
inductive Request where
  | create (req : CreateTopicRequest)
  | produce (topic : Str) (data : Data)

/-- A request, with the replicated state and the ring as they are by then. -/
structure Turn where
  fsm : Store
  lookup : BrokerLookup
  request : Request

def Turn.meet (e : Turn) (b : Broker) : Broker :=
  { b with cluster := { b.cluster with fsm := e.fsm, lookup := e.lookup } }

/-- The record sets that have been appended once a request is answered. -/
def Produced.after (produced : Produced) : Request → Option Int → Produced
  | .produce topic data, some _ => produced.push topic data.partition (data.recordSet.getD [])
  | _, _ => produced

/-- Two logs lie in one directory only if they are of one partition. -/
def Apart (b : Broker) : Prop :=
  ∀ replica ∈ b.replicas, ∀ replica' ∈ b.replicas, ∀ (n n' : Nat) (log log' : Commitlog.CommitLog),
    replica.log = some n → replica'.log = some n' → b.logs[n]? = some log → b.logs[n']? = some log' →
    log.opts.path = log'.opts.path →
      replica.partition.topic = replica'.partition.topic ∧ replica.partition.id = replica'.partition.id

/-- The log of every partition has exactly what was produced to it, in order, and that is what a
fetch from its start returns. -/
structure Delivers (b : Broker) (produced : Produced) : Prop where
  contents : ∀ topic id replica n, found b topic id = some replica → replica.log = some n →
    ∃ log, b.logs[n]? = some log ∧
      (b.world log).contents.flatten = (Ledger.stampFrom 0 (produced topic id)).flatten
  fetched : ∀ topic replica n (minBytes : Int32) (p : FetchPartition),
    found b topic p.partition = some replica → replica.log = some n →
    replica.partition.leader = b.cluster.id → p.fetchOffset = 0 → 0 < minBytes.toInt →
    minBytes.toInt ≤ (Ledger.stampFrom 0 (produced topic p.partition)).flatten.length →
    (Ledger.stampFrom 0 (produced topic p.partition)).flatten.length < 2147483648 →
    (fetch minBytes topic p).run b = .ok (.none, some ((produced topic p.partition).length - 1,
      some (Ledger.stampFrom 0 (produced topic p.partition)).flatten)) b

/-- Appending to one partition touches the log of no other. -/
def Spares (b b' : Broker) : Request → Prop
  | .create _ => True
  | .produce topic data => ∀ replica ∈ b.replicas, ∀ n, replica.log = some n →
      ¬ replica.serves topic data.partition → Untouched n b b'

/-- A broker that hosts nothing, with no files where its logs will be. -/
structure Fresh (b : Broker) : Prop where
  replicas : b.replicas = []
  lookup : b.lookup = []
  replicators : b.replicators = []
  logs : b.logs = []
  quiet : b.disk.script = []
  empty : ∀ id, b.disk.listing (logDir b.dataDir id) = []

/-- A topic has fewer partitions than the number of any partition with a log here, and is announced
here once. A record set has its header. -/
def Fits (b : Broker) : Request → Prop
  | .create req =>
    (b.cluster.lookup.addressToBroker.filter fun e => e.2.id = b.cluster.id).length ≤ 1 ∧
    ∀ replica ∈ b.replicas, replica.log ≠ none → req.numPartitions ≤ replica.partition.id
  | .produce _ data => Commitlog.msgSetHeaderLen ≤ (data.recordSet.getD []).length

section

variable (lower : Str → Str) (hash : Bytes → UInt64)

def answer : Request → Call Broker (ErrorCode × Option Int)
  | .create req => do
    let code ← createTopic lower req
    return (code, none)
  | .produce topic data => produce lower hash topic data

/-- In every state of a run the logs are apart and deliver, and every append spares the others. -/
def Separated : List Turn → Produced → Broker → Prop
  | [], produced, b => Apart b ∧ Delivers b produced
  | e :: es, produced, b => (Apart b ∧ Delivers b produced) ∧
      ∀ code offset b', (answer lower hash e.request).run (e.meet b) = .ok (code, offset) b' →
        Spares (e.meet b) b' e.request ∧ Separated es (produced.after e.request offset) b'

def Fitting : List Turn → Broker → Prop
  | [], _ => True
  | e :: es, b => Fits (e.meet b) e.request ∧
      ∀ code offset b', (answer lower hash e.request).run (e.meet b) = .ok (code, offset) b' →
        Fitting es b'

end

variable {lower : Str → Str} {hash : Bytes → UInt64} {b b' : Broker} {produced : Produced}
  {rs : Nat → List Bytes} {older : Nat → List Commitlog.View} {active : Nat → Commitlog.View}

theorem Fresh.tenants (fresh : Fresh b) :
    Tenants b (fun _ _ => []) (fun _ => []) (fun _ => []) fun _ => ⟨⟨0, []⟩, 0, 0, 0⟩ := by
  have nobody (r : Nat) (replica : Replica) (n : Nat) : ¬ Tenant b r replica n := by
    rintro ⟨here, -⟩
    rw [fresh.replicas] at here
    cases here
  refine ⟨⟨?_, ?_, ?_, ?_⟩, ⟨fresh.quiet, ?_, ?_⟩,
    fun r replica n tenant => absurd tenant (nobody r replica n), fun r replica n tenant => absurd tenant (nobody r replica n),
    fun r replica n _ _ _ tenant => absurd tenant (nobody r replica n), ?_, fun id _ => fresh.empty id,
    fun _ _ _ => rfl⟩ <;>
    simp [fresh.replicas, fresh.lookup, fresh.replicators, fresh.logs]

namespace Tenants

theorem apart (tenants : Tenants b produced rs older active) : Apart b := by
  intro replica inside replica' inside' n n' log log' taken taken' there there' same
  obtain ⟨r, here⟩ := mem_iff_getElem?.mp inside
  obtain ⟨r', here'⟩ := mem_iff_getElem?.mp inside'
  obtain ⟨log₁, first, opts, -⟩ := tenants.holds r replica n ⟨here, taken⟩
  obtain ⟨log₂, second, opts', -⟩ := tenants.holds r' replica' n' ⟨here', taken'⟩
  obtain rfl := Option.some.inj (there.symm.trans first)
  obtain rfl := Option.some.inj (there'.symm.trans second)
  rw [opts, opts'] at same
  obtain rfl := tenants.single r replica n r' replica' n' ⟨here, taken⟩ ⟨here', taken'⟩ (logDir_inj same)
  obtain rfl := Option.some.inj (here.symm.trans here')
  exact ⟨rfl, rfl⟩

theorem delivers (tenants : Tenants b produced rs older active) : Delivers b produced := by
  refine ⟨fun topic id replica n here taken => ?_, fun topic replica n minBytes p here taken led start =>
    tenants.fetch p here taken led start⟩
  obtain ⟨r, -, present, own, id⟩ := tenants.linked.found here
  obtain ⟨log, there, -, has⟩ := tenants.holds r replica n ⟨present, taken⟩
  obtain ⟨-, kept⟩ := tenants.housed.kept n log there
  rw [own, id] at has
  exact ⟨log, there, by rw [kept.contents, has]⟩

theorem answer {request : Request} {code : ErrorCode} {offset : Option Int}
    (tenants : Tenants b produced rs older active) (tidy : b.cluster.fsm.Tidy lower)
    (fits : Fits b request) (ran : (answer lower hash request).run b = .ok (code, offset) b') :
    Spares b b' request ∧ Rented b' (produced.after request offset) := by
  cases request with
  | create req =>
    obtain ⟨once, free⟩ := fits
    have created := tenants.createTopic req tidy once
      fun id below r replica n tenant same => by
        have least := free replica (mem_of_getElem? tenant.here) (by simp [tenant.log])
        rw [same] at least
        exact absurd below (Int32.not_lt.mpr least)
    obtain ⟨code', b₁, made, returned⟩ := bind_eq_ok ran
    cases returned
    rw [made] at created
    exact ⟨trivial, created⟩
  | produce topic data =>
    rcases tenants.produce hash topic data fits with
      ⟨code', -, refused⟩ | ⟨b₁, offset', appended, tenants', spares⟩
    · cases ran.symm.trans refused
      exact ⟨fun _ _ _ _ _ log there => ⟨there, fun _ _ => ⟨rfl, fun _ _ => ⟨rfl, rfl⟩⟩⟩, rs, older,
        active, tenants⟩
    · cases ran.symm.trans appended
      refine ⟨fun replica inside n taken apart => ?_, tenants'⟩
      obtain ⟨r, here⟩ := mem_iff_getElem?.mp inside
      exact spares r replica n ⟨here, taken⟩ apart

end Tenants

theorem started_fresh (c : Cluster) : Fresh (started c) :=
  ⟨rfl, rfl, rfl, rfl, rfl, fun _ => rfl⟩

/-- The topic is created with one partition. -/
def creates (topic : String) : Turn :=
  ⟨Store.new, (connected Store.new).lookup, .create ⟨ascii topic, 1, 1, none, none⟩⟩

/-- A record set for partition 0 of `t`. -/
def produces : Turn :=
  ⟨oneTopic, (connected oneTopic).lookup, .produce (ascii "t") ⟨0, some (Commitlog.plainSet [7])⟩⟩

end Jocko.Broker
