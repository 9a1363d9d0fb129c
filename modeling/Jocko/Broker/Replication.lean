import Jocko.Broker.Replicas
import Jocko.Commitlog.LogInvariant
import Jocko.Go.Chan

namespace Jocko.Broker

open Go Protocol List Option

structure ReplicatorConfig where
  minBytes : Int32
  maxWaitTime : Int

/-- Where the goroutine of `fetchMessages` is: at its `select`, in its call of `Fetch`, in the
loops over a response with these partitions to go, or returned. -/
inductive Fetcher where
  | asking
  | fetching
  | reading (todo : List FetchPartitionResponse)
  | returned
  deriving DecidableEq

/-- Where the goroutine of `appendMessages` is: at its `select`, about to append what it
received, or returned. -/
inductive Appender where
  | waiting
  | holding (msg : Bytes)
  | returned
  deriving DecidableEq

/-- The two goroutines of a replicator and what they share. A panic of either ends the
process. -/
structure Copier where
  highwaterMarkOffset : Int
  offset : Int
  msgs : Chan Bytes
  fetcher : Fetcher
  appender : Appender
  panicked : Option Stop

namespace Copier

/-- `NewReplicator`, then `Replicate` -/
def start : Copier := ⟨0, 0, Chan.make 2, .asking, .waiting, none⟩

/-- The request that the next round of `fetchMessages` sends. -/
def fetchRequest (config : ReplicatorConfig) (replica : Replica) (c : Copier) : FetchRequest where
  apiVersion := 0
  replicaID := replica.brokerID
  maxWaitTime := config.maxWaitTime
  minBytes := if config.minBytes = 0 then 1 else config.minBytes
  maxBytes := 0
  isolationLevel := 0
  topics := [⟨replica.partition.topic, [⟨replica.partition.id, c.offset, 0⟩]⟩]

/-- The body of the inner loop of `fetchMessages`; `rest` are the partitions after this one.
A `goto BACKOFF` leads back to the `select`. There is no outcome while `msgs` is full. -/
def readPartition (c : Copier) (p : FetchPartitionResponse) (rest : List FetchPartitionResponse) :
    Option Copier :=
  if p.errorCode ≠ ErrorCode.none.code then some { c with fetcher := .asking }
  else match p.recordSet with
  | none => some { c with fetcher := .asking }
  | some recordSet =>
    match Commitlog.MessageSet.offset recordSet with
    | .error why => some { c with panicked := some why }
    | .ok offset =>
      if c.offset < offset then
        match c.msgs.send recordSet with
        | none => none
        | some (.error why) => some { c with panicked := some why }
        | some (.ok msgs) => some { c with
            msgs
            highwaterMarkOffset := p.highWatermark
            offset
            fetcher := .reading rest }
      else some { c with fetcher := .reading rest }

/-- What a goroutine does next: `fetchMessages` calls `Fetch`, gets its answer (`none` is an
error), looks at the next partition of it or returns; `appendMessages` receives or returns. -/
inductive Act where
  | ask
  | fetch (response : Option FetchResponse)
  | read
  | receive
  | quitFetching
  | quitAppending

/-- One such step, if it is possible. The `select` of `fetchMessages` takes its default only
while `done` is open, and nothing looks at `done` again before the answer is read; the `select`
of `appendMessages` may take either of two that are ready. -/
def step (closed : Bool) (c : Copier) : Act → Option Copier
  | .ask =>
    if c.fetcher = .asking ∧ closed = false then some { c with fetcher := .fetching } else none
  | .fetch response =>
    if c.fetcher = .fetching then
      match response with
      | none => some { c with fetcher := .asking }
      | some response => some { c with
          fetcher := .reading (response.responses.flatMap FetchTopicResponse.partitionResponses) }
    else none
  | .read =>
    match c.fetcher with
    | .reading [] => some { c with fetcher := .asking }
    | .reading (p :: rest) => c.readPartition p rest
    | _ => none
  | .receive =>
    if c.appender = .waiting then
      c.msgs.recv.map fun (msg, msgs) => { c with msgs, appender := .holding msg }
    else none
  | .quitFetching =>
    if c.fetcher = .asking ∧ closed then some { c with fetcher := .returned } else none
  | .quitAppending =>
    if c.appender = .waiting ∧ closed then some { c with appender := .returned } else none

/-- The record set that `appendMessages` calls `Append` with next. -/
def held (c : Copier) : Option Bytes :=
  match c.appender with
  | .holding msg => some msg
  | _ => none

/-- `Append` has returned; an error is a panic. -/
def appended (c : Copier) (failed : Option Stop) : Copier :=
  { c with appender := .waiting, panicked := failed }

end Copier

/-- The log of a leader: the record at place `i` starts with the offset `i`. -/
structure LeaderLog where
  records : List Bytes
  numbered : ∀ (i : Nat) (r : Bytes), records[i]? = some r → Commitlog.MessageSet.offset r = .ok i

/-- A replicator at work: its goroutines, the machine of the follower whose log it fills, and
the log of the leader that it fetches from. -/
structure Replication where
  config : ReplicatorConfig
  replica : Replica
  copier : Copier
  closed : Bool
  world : Commitlog.World
  leader : LeaderLog

namespace Replication

inductive Move where
  | grow (log : LeaderLog)
  | act (a : Copier.Act)
  | append
  | close

def start (config : ReplicatorConfig) (replica : Replica) (w : Commitlog.World)
    (leader : LeaderLog) : Replication := ⟨config, replica, .start, false, w, leader⟩

def fetchRequest (s : Replication) : FetchRequest := s.copier.fetchRequest s.config s.replica

variable (hash : Bytes → UInt64)

/-- The call of `Append` in `appendMessages`. -/
def append (s : Replication) (msg : Bytes) : Replication :=
  match (Commitlog.append hash msg).run s.world with
  | .ok _ w => { s with world := w, copier := s.copier.appended none }
  | .error why w => { s with world := w, copier := s.copier.appended (some why) }

/-- One move, if it is possible. The log of the leader only grows. -/
def step (s : Replication) (move : Move) : Option Replication :=
  if s.copier.panicked.isSome then none
  else match move with
  | .grow log => if s.leader.records <+: log.records then some { s with leader := log } else none
  | .act a => (s.copier.step s.closed a).map fun copier => { s with copier }
  | .append => s.copier.held.map (s.append hash)
  | .close =>
    if s.closed then some { s with
      copier := { s.copier with panicked := some (.panic "close of closed channel") } }
    else some { s with closed := true }

def run : List Move → Replication → Option Replication
  | [], s => some s
  | move :: moves, s => (s.step hash move).bind (run moves)

/-- The leader's answer to a request: for each partition that is asked for, no error and the
records from the fetch offset on, at least one of them, or a nil record set at what was the end
of its log when it answered. -/
def Serves (leader : LeaderLog) (req : FetchRequest) (res : FetchResponse) : Prop :=
  List.Forall₂ (fun (t : FetchTopic) (answer : FetchTopicResponse) => answer.topic = t.topic ∧
    List.Forall₂ (fun (p : FetchPartition) (part : FetchPartitionResponse) =>
      part.partition = p.partition ∧ part.errorCode = ErrorCode.none.code ∧
        ∃ o : Nat, p.fetchOffset = o ∧
          ((o ≤ leader.records.length ∧ part.recordSet = none) ∨
            ∃ n, 0 < n ∧ o + n ≤ leader.records.length ∧
              part.recordSet = some ((leader.records.drop o).take n).flatten))
      t.partitions answer.partitionResponses)
    req.topics res.responses

/-- Every answer in the run is one that the leader gives to the request it is for. -/
def Obeys : List Move → Replication → Prop
  | [], _ => True
  | move :: moves, s =>
    (∀ res, move = .act (.fetch (some res)) → Serves s.leader s.fetchRequest res) ∧
      ∀ s', s.step hash move = some s' → Obeys moves s'

/-- The follower's log, then the record set that is being appended and those in `msgs`, are the
leader's records from 0 on, each at the leader's offset, and the next request asks for the one
that comes after them. -/
def Copies (s : Replication) : Prop :=
  ∃ (stored : List Bytes) (queued : List (List Bytes)) (segs : List Commitlog.Segment),
    Commitlog.LogInvariant stored s.world segs ∧
      s.copier.held.toList ++ s.copier.msgs.queue = queued.map List.flatten ∧
      stored ++ queued.flatten <+: s.leader.records ∧
      ∀ t ∈ s.fetchRequest.topics, ∀ p ∈ t.partitions,
        p.fetchOffset = (stored ++ queued.flatten).length

/-- What holds throughout: an answer starts with the offset that was asked for, and that is not
above `offset`, so that nothing is ever put into `msgs`. -/
structure Idle (w : Commitlog.World) (s : Replication) : Prop where
  offset : s.copier.offset = 0
  msgs : s.copier.msgs.queue = []
  held : s.copier.held = none
  world : s.world = w
  reading : ∀ todo, s.copier.fetcher = .reading todo → ∀ p ∈ todo, ∀ recordSet,
    p.recordSet = some recordSet → Commitlog.MessageSet.offset recordSet = .ok 0

variable {hash : Bytes → UInt64} {w : Commitlog.World} {s s' : Replication}

/-- Whole records from offset 0 on start with the offset 0. -/
theorem offset_records {leader : LeaderLog} {n : Nat} (positive : 0 < n)
    (there : n ≤ leader.records.length) :
    Commitlog.MessageSet.offset (leader.records.take n).flatten = .ok 0 := by
  obtain ⟨r, rest, split⟩ := exists_cons_of_length_pos (Nat.lt_of_lt_of_le positive there)
  obtain ⟨n, rfl⟩ := Nat.exists_eq_succ_of_ne_zero (Nat.ne_of_gt positive)
  have first := leader.numbered 0 r (by rw [split]; rfl)
  rw [split, take_succ_cons, flatten_cons]
  exact Commitlog.MessageSet.offset_append first _

theorem fetchOffset_eq {t : FetchTopic} {p : FetchPartition} (asked : t ∈ s.fetchRequest.topics)
    (part : p ∈ t.partitions) : p.fetchOffset = s.copier.offset := by
  obtain rfl := mem_singleton.mp asked
  obtain rfl := mem_singleton.mp part
  rfl

/-- An answer to a request for offset 0 brings record sets that start with 0. -/
theorem Serves.offset {leader : LeaderLog} {res : FetchResponse} (zero : s.copier.offset = 0)
    (serves : Serves leader s.fetchRequest res) :
    ∀ p ∈ res.responses.flatMap FetchTopicResponse.partitionResponses, ∀ recordSet,
      p.recordSet = some recordSet → Commitlog.MessageSet.offset recordSet = .ok 0 := by
  intro p inside recordSet holds
  obtain ⟨answer, answers, inside⟩ := mem_flatMap.mp inside
  obtain ⟨t, asked, -, parts⟩ := related_of_mem serves answers
  obtain ⟨part, wanted, -, -, o, offset, served⟩ := related_of_mem parts inside
  obtain rfl : o = 0 := by
    rw [fetchOffset_eq asked wanted, zero] at offset
    omega
  rcases served with ⟨-, none⟩ | ⟨n, positive, there, records⟩
  · rw [none] at holds
    cases holds
  · rw [records, drop_zero] at holds
    obtain rfl := some.inj holds
    exact offset_records positive (by omega)

variable {c c' : Copier}

/-- A goroutine that finds only what it has does not queue anything. -/
theorem readPartition_idle {p : FetchPartitionResponse} {rest : List FetchPartitionResponse}
    (known : ∀ recordSet, p.recordSet = some recordSet →
      Commitlog.MessageSet.offset recordSet = .ok c.offset)
    (ends : c.readPartition p rest = some c') :
    ∃ fetcher, c' = { c with fetcher } ∧ (fetcher = .asking ∨ fetcher = .reading rest) := by
  unfold Copier.readPartition at ends
  split at ends
  · exact ⟨.asking, (some.inj ends).symm, .inl rfl⟩
  · split at ends
    · exact ⟨.asking, (some.inj ends).symm, .inl rfl⟩
    · rename_i recordSet holds
      rw [known recordSet holds] at ends
      simp only [lt_self_iff_false, ↓reduceIte] at ends
      exact ⟨.reading rest, (some.inj ends).symm, .inr rfl⟩

theorem Idle.act {a : Copier.Act} (idle : Idle w s)
    (obeys : ∀ res, a = .fetch (some res) → Serves s.leader s.fetchRequest res)
    (ends : s.copier.step s.closed a = some c') : Idle w { s with copier := c' } := by
  obtain ⟨offset, msgs, held, world, reading⟩ := idle
  cases a with
  | ask =>
    simp only [Copier.step] at ends
    split at ends
    · cases ends
      exact ⟨offset, msgs, held, world, nofun⟩
    · cases ends
  | fetch response =>
    simp only [Copier.step] at ends
    split at ends
    · cases response with
      | none =>
        cases ends
        exact ⟨offset, msgs, held, world, nofun⟩
      | some res =>
        cases ends
        refine ⟨offset, msgs, held, world, fun todo here => ?_⟩
        cases here
        exact (obeys res rfl).offset offset
    · cases ends
  | read =>
    simp only [Copier.step] at ends
    split at ends
    · cases ends
      exact ⟨offset, msgs, held, world, nofun⟩
    · rename_i p rest here
      have known := reading _ here
      obtain ⟨fetcher, rfl, next⟩ := readPartition_idle (fun recordSet holds => by
        rw [offset]
        exact known p (mem_cons_self ..) recordSet holds) ends
      refine ⟨offset, msgs, held, world, fun todo there => ?_⟩
      rcases next with rfl | rfl
      · cases there
      · cases there
        exact fun q inside => known q (mem_cons_of_mem _ inside)
    · cases ends
  | receive =>
    have empty : s.copier.msgs.recv = none := by simp only [Chan.recv, msgs]
    simp [Copier.step, empty] at ends
  | quitFetching =>
    simp only [Copier.step] at ends
    split at ends
    · cases ends
      exact ⟨offset, msgs, held, world, nofun⟩
    · cases ends
  | quitAppending =>
    simp only [Copier.step] at ends
    split at ends
    · cases ends
      exact ⟨offset, msgs, rfl, world, reading⟩
    · cases ends

theorem Idle.step {move : Move} (idle : Idle w s)
    (obeys : ∀ res, move = .act (.fetch (some res)) → Serves s.leader s.fetchRequest res)
    (ends : s.step hash move = some s') : Idle w s' := by
  unfold Replication.step at ends
  split at ends
  · cases ends
  · cases move with
    | grow log =>
      simp only at ends
      split at ends
      · cases ends
        exact ⟨idle.offset, idle.msgs, idle.held, idle.world, idle.reading⟩
      · cases ends
    | act a =>
      obtain ⟨c', stepped, rfl⟩ := map_eq_some_iff.mp ends
      exact idle.act (fun res same => obeys res (by rw [same])) stepped
    | append =>
      simp only [idle.held, map_none] at ends
      cases ends
    | close =>
      simp only at ends
      split at ends <;> cases ends <;>
        exact ⟨idle.offset, idle.msgs, idle.held, idle.world, idle.reading⟩

theorem Idle.run {moves : List Move} (idle : Idle w s) (obeys : Obeys hash moves s)
    (ends : run hash moves s = some s') : Idle w s' := by
  induction moves generalizing s with
  | nil =>
    cases ends
    exact idle
  | cons move moves ih =>
    obtain ⟨t, stepped, rest⟩ := bind_eq_some_iff.mp ends
    exact ih (idle.step obeys.1 stepped) (obeys.2 t stepped) rest

/-- The log of the follower stays as empty as it was. -/
theorem Idle.copies {segs : List Commitlog.Segment} (empty : Commitlog.LogInvariant [] w segs)
    (idle : Idle w s) : Copies s := by
  refine ⟨[], [], segs, ?_, ?_, ?_, fun t asked p part => ?_⟩
  · rw [idle.world]
    exact empty
  · rw [idle.held, idle.msgs]
    rfl
  · exact nil_prefix
  · rw [fetchOffset_eq asked part, idle.offset]
    rfl

/-- Whatever the leader appends and however the goroutines take turns, a follower that starts
with an empty log holds the beginning of the leader's log, and asks for what comes after it. -/
theorem run_copies {config : ReplicatorConfig} {replica : Replica} {leader : LeaderLog}
    {segs : List Commitlog.Segment} {moves : List Move}
    (empty : Commitlog.LogInvariant [] w segs)
    (obeys : Obeys hash moves (start config replica w leader))
    (ends : run hash moves (start config replica w leader) = some s) : Copies s := by
  have idle : Idle w (start config replica w leader) := ⟨rfl, rfl, rfl, rfl, nofun⟩
  exact (idle.run obeys ends).copies empty

def oneRecord : LeaderLog where
  records := [Commitlog.plainSet [7]]
  numbered := fun i r here => by
    match i with
    | 0 =>
      cases here
      decide
    | _ + 1 => cases here

/-- The leader sends its record to a follower that does not queue it. -/
def fetchesOnce : List Move :=
  [.act .ask,
    .act (.fetch (some ⟨0, 0, [⟨[], [⟨0, 0, 1, 0, [], some (Commitlog.plainSet [7])⟩]⟩]⟩)),
    .act .read, .act .read]

theorem run_copies_fetched :
    ∃ w s, (Commitlog.new ⟨"log", 1024, -1, "delete"⟩).run Commitlog.World.idle = .ok () w ∧
      run (fun _ => 0) fetchesOnce (start ⟨0, 0⟩ ⟨2, ⟨0, 0, [], [], [], 1, 0, 0, 0, 0⟩, true, some 0,
        some 0⟩ w oneRecord) = some s ∧ Copies s := by
  obtain ⟨w, segs, made, empty⟩ := @Commitlog.new_invariant ⟨"log", 1024, -1, "delete"⟩
    Commitlog.World.idle (by decide) (by decide) rfl rfl
  obtain ⟨s, ran⟩ : ∃ s, run (fun _ => 0) fetchesOnce (start ⟨0, 0⟩ ⟨2, ⟨0, 0, [], [], [], 1, 0, 0, 0,
      0⟩, true, some 0, some 0⟩ w oneRecord) = some s := ⟨_, rfl⟩
  refine ⟨w, s, made, ran, run_copies empty ?_ ran⟩
  refine ⟨nofun, fun s₁ asked => ⟨?_, fun s' fetched =>
    ⟨nofun, fun s'' read => ⟨nofun, fun _ _ => trivial⟩⟩⟩⟩
  obtain rfl := some.inj asked
  intro res sent
  obtain rfl : _ = res := some.inj (Copier.Act.fetch.inj (Move.act.inj sent))
  refine .cons ⟨rfl, .cons ⟨rfl, rfl, 0, rfl, .inr ⟨1, Nat.one_pos, Nat.le_refl 1, rfl⟩⟩ .nil⟩ .nil

end Replication

end Jocko.Broker
