import Jocko.Broker.Replication
import Jocko.Broker.Leadership

namespace Jocko.Broker

open Go MemDB Fsm Protocol Cluster List Option

/-- A broker and the goroutines of one of its replicators. -/
structure Handover where
  broker : Broker
  copier : Copier

/-- What a broker does while its replicator is at work. -/
inductive Doing where
  | arrival (e : Arrival)
  | becomeLeader (r : Nat) (cmd : PartitionState)
  | becomeFollower (r : Nat) (cmd : PartitionState)
  | close (k : Nat)

/-- The replicator was closed. -/
def Closed (k : Nat) (b : Broker) : Prop := ∃ x, b.replicators[k]? = some x ∧ x.closed = true

instance (k : Nat) (b : Broker) : Decidable (Closed k b) :=
  match here : b.replicators[k]? with
  | none => isFalse fun ⟨x, found, _⟩ => by rw [here] at found; cases found
  | some x => if closed : x.closed = true then isTrue ⟨x, here, closed⟩
      else isFalse fun ⟨y, found, closed'⟩ => by
        rw [here] at found
        cases found
        exact closed closed'

namespace Handover

inductive Move where
  | act (a : Copier.Act)
  | append
  | broker (doing : Doing)

section

variable (lower : Str → Str) (hash : Bytes → UInt64)

def perform : Doing → Call Broker Unit
  | .arrival e => do
    ⟨fun b => .ok () (e.meet b)⟩
    handlePart lower hash e.handled
  | .becomeLeader r cmd => do
    let _ ← Broker.becomeLeader r cmd
  | .becomeFollower r cmd => do
    let _ ← Broker.becomeFollower r cmd
  | .close k => closeReplicator k

/-- `r.replica.Log.Append(msg)` -/
def appendReplica (k : Nat) (msg : Bytes) : Call Broker Int := do
  let x ← ⟨fun b => (b.replicators[k]?).elim (.error nilPointer b) fun x => .ok x b⟩
  match (← getReplica x.replica).log with
  | none => stop nilPointer
  | some log => onLog log (Commitlog.append hash msg)

/-- One move of the system, if it is possible. -/
def step (k : Nat) (s : Handover) (move : Move) : Option Handover :=
  if s.copier.panicked.isSome then none
  else match move with
  | .act a => (s.copier.step (Closed k s.broker) a).map fun copier => { s with copier }
  | .append => s.copier.held.map fun msg =>
    match (appendReplica hash k msg).run s.broker with
    | .ok _ b => ⟨b, s.copier.appended none⟩
    | .error why b => ⟨b, s.copier.appended (some why)⟩
  | .broker doing =>
    match (perform lower hash doing).run s.broker with
    | .ok _ b => some { s with broker := b }
    | .error why b => some ⟨b, { s.copier with panicked := some why }⟩

def run (k : Nat) : List Move → Handover → Option Handover
  | [], s => some s
  | move :: moves, s => (s.step lower hash k move).bind (run k moves)

/-- However it goes on, the replicator does not call `Append`. -/
def Silent (k : Nat) (s : Handover) : Prop :=
  ∀ moves s', run lower hash k moves s = some s' → Move.append ∉ moves

end

end Handover

namespace Copier

/-- The rest of a response holds a record set that `fetchMessages` sends to `msgs`. -/
def sends (offset : Int) : List FetchPartitionResponse → Bool
  | [] => false
  | p :: rest =>
    decide (p.errorCode = ErrorCode.none.code) &&
      match p.recordSet with
      | none => false
      | some recordSet =>
        match Commitlog.MessageSet.offset recordSet with
        | .error _ => false
        | .ok o => decide (offset < o) || sends offset rest

/-- `fetchMessages` is going to send something that it has fetched, or may be: whatever `Fetch`
returns is read to its end, and any record set but the one with the largest offset has others
above it. -/
def sending (c : Copier) : Bool :=
  match c.fetcher with
  | .fetching => c.offset < 2 ^ 63 - 1
  | .reading todo => sends c.offset todo
  | _ => false

/-- Nothing that was fetched is still to be appended. -/
def Drained (c : Copier) : Prop :=
  c.panicked.isSome ∨ c.appender = .returned ∨
    (c.appender = .waiting ∧ c.msgs.queue = [] ∧ c.sending = false)

instance (c : Copier) : Decidable c.Drained := inferInstanceAs (Decidable (_ ∨ _))

end Copier

/-- No replicator is dropped or opened again. -/
def Retained (b b' : Broker) : Prop :=
  ∀ (k : Nat) (x : Replicator), b.replicators[k]? = some x →
    ∃ x', b'.replicators[k]? = some x' ∧ (x.closed = true → x'.closed = true)

instance : IsPreorder Broker Retained where
  refl _ _ x here := ⟨x, here, id⟩
  trans b b' b'' first second k x here := by
    obtain ⟨x', here', closed⟩ := first k x here
    obtain ⟨x'', here'', closed'⟩ := second k x' here'
    exact ⟨x'', here'', closed' ∘ closed⟩

variable {b b' : Broker}

theorem Retained.of_same (same : b'.replicators = b.replicators) : Retained b b' := by
  intro k x here
  exact ⟨x, same ▸ here, id⟩

theorem Retained.of_more {xs : List Replicator}
    (more : b'.replicators = b.replicators ++ xs) : Retained b b' := by
  intro k x here
  obtain ⟨inside, -⟩ := List.getElem?_eq_some_iff.mp here
  exact ⟨x, by rw [more, List.getElem?_append_left inside, here], id⟩

theorem Retained.closed {k : Nat} (keeps : Retained b b') (closed : Closed k b) : Closed k b' := by
  obtain ⟨x, here, closed⟩ := closed
  obtain ⟨x', here', closed'⟩ := keeps k x here
  exact ⟨x', here', closed' closed⟩

section

variable {α : Type} {lower : Str → Str} {hash : Bytes → UInt64}

theorem onCluster_keeps (call : Call Cluster α) : (onCluster call).Moves Retained := by
  intro b
  rw [onCluster_state]
  exact Retained.of_same rfl

theorem OnLogs.keeps (onLogs : OnLogs b b') : Retained b b' := by
  obtain ⟨disk, segs, logs, rfl⟩ := onLogs
  exact Retained.of_same rfl

theorem onLog_keeps (log : Nat) (call : Call Commitlog.World α) : (onLog log call).Moves Retained :=
  fun b => OnLogs.keeps (onLog_state log call b)

variable (r : Nat)

theorem getReplica_keeps : (getReplica r).Moves Retained :=
  Call.Moves.of_unchanged (getReplica_state r)

theorem setReplica_keeps (replica : Replica) : (setReplica r replica).Moves Retained :=
  fun _ => Retained.of_same rfl

theorem closeReplicator_keeps (k : Nat) : (closeReplicator k).Moves Retained := by
  intro b
  unfold closeReplicator
  dsimp only
  split
  · exact Retained.of_same rfl
  · rename_i x here
    split
    · exact Retained.of_same rfl
    · intro k' x' here'
      obtain ⟨inside, -⟩ := List.getElem?_eq_some_iff.mp here
      by_cases same : k = k'
      · subst same
        exact ⟨_, getElem?_set_self inside, fun _ => rfl⟩
      · exact ⟨x', (getElem?_set_ne same).trans here', id⟩

theorem stopReplicator_keeps (replica : Replica) : (stopReplicator replica).Moves Retained := by
  unfold stopReplicator
  split
  · exact closeReplicator_keeps _
  · exact .pure _

theorem newReplicator_keeps (leader : Str) : (newReplicator r leader).Moves Retained :=
  fun _ => Retained.of_more rfl

theorem replicate_keeps (k : Nat) : (replicate k).Moves Retained := by
  intro b k' x here
  refine ⟨if k = k' then { x with started := true } else x, ?_, ?_⟩
  · change (b.replicators.modify k _)[k']? = _
    rw [getElem?_modify, here]
    split <;> rfl
  · split <;> exact id

theorem becomeLeader_keeps (cmd : PartitionState) :
    (becomeLeader r cmd).Moves Retained := by
  refine .bind (getReplica_keeps r) fun replica => ?_
  refine .bind (stopReplicator_keeps replica) fun _ => ?_
  exact .bind (setReplica_keeps r _) fun _ => .pure _

theorem becomeFollower_keeps (cmd : PartitionState) :
    (becomeFollower r cmd).Moves Retained := by
  refine .bind (getReplica_keeps r) fun replica => ?_
  refine .bind (stopReplicator_keeps replica) fun _ => ?_
  split
  · exact .stop _
  · rename_i log _
    refine .bind (onLog_keeps log _) fun hw => ?_
    refine .bind (onLog_keeps log _).attempt fun truncated => ?_
    split
    · exact .pure _
    · refine .bind (onCluster_keeps _) fun broker => ?_
      split
      · exact .pure _
      · refine .bind (onCluster_keeps _).attempt fun reached => ?_
        split
        · exact .pure _
        · refine .bind (newReplicator_keeps r _) fun k => ?_
          refine .bind (setReplica_keeps r _) fun _ => ?_
          refine .bind (.of_unchanged fun _ => rfl) fun devMode => ?_
          split
          · exact .pure _
          · exact .bind (replicate_keeps k) fun _ => .pure _

theorem handleState_keeps (p : PartitionState) : (handleState lower p).Moves Retained := by
  intro b
  have hosts : Hosts p b ((handleState lower p).run b).state := handleState_hosts p b
  obtain ⟨replica, -, -, -, engages, -⟩ := hosts.hosts
  rcases engages with ⟨-, same⟩ | ⟨-, leader, started, more⟩
  · exact Retained.of_same same
  · exact Retained.of_more more

theorem handleStates_keeps (ps : List PartitionState) : (handleStates lower ps).Moves Retained := by
  induction ps with
  | nil => exact .pure _
  | cons p ps ih =>
    refine .bind (handleState_keeps p) fun first => ?_
    exact .bind ih fun rest => .pure _

theorem perform_keeps (doing : Doing) : (Handover.perform lower hash doing).Moves Retained := by
  cases doing with
  | arrival e =>
    refine .bind (fun b => Retained.of_same rfl) fun _ => ?_
    cases e.handled with
    | leaderAndISR req =>
      refine .bind ?_ fun res => .pure _
      exact .bind (handleStates_keeps _) fun ps => .pure _
    | produce topic data =>
      exact .bind (fun b => (produce_onLogs topic data b).keeps) fun res =>
        Call.Moves.pure _
    | fetch minBytes topic p =>
      exact .bind (fun b => (fetch_onLogs minBytes topic p b).keeps) fun res =>
        Call.Moves.pure _
  | becomeLeader r cmd => exact .bind (becomeLeader_keeps r cmd) fun _ => .pure _
  | becomeFollower r cmd =>
    exact .bind (becomeFollower_keeps r cmd) fun _ => .pure _
  | close k => exact closeReplicator_keeps k

end

namespace Copier

variable {c c' : Copier} {a : Act} {closed : Bool}

/-- The channel `msgs` is as `NewReplicator` made it, except for what is in it. -/
def Wired (c : Copier) : Prop := c.msgs.cap = 2 ∧ c.msgs.closed = false

theorem readPartition_frame {p : FetchPartitionResponse} {rest : List FetchPartitionResponse}
    (ends : c.readPartition p rest = some c') :
    c'.appender = c.appender ∧ c'.msgs.cap = c.msgs.cap ∧ c'.msgs.closed = c.msgs.closed := by
  unfold readPartition at ends
  split at ends
  · cases ends
    exact ⟨rfl, rfl, rfl⟩
  · split at ends
    · cases ends
      exact ⟨rfl, rfl, rfl⟩
    · split at ends
      · cases ends
        exact ⟨rfl, rfl, rfl⟩
      · split at ends
        · split at ends
          · cases ends
          · cases ends
            exact ⟨rfl, rfl, rfl⟩
          · rename_i msgs sent
            cases ends
            obtain ⟨-, -, rfl⟩ := Chan.send_eq_ok sent
            exact ⟨rfl, rfl, rfl⟩
        · cases ends
          exact ⟨rfl, rfl, rfl⟩

/-- A step leaves the channel its own, and a goroutine that has returned does not start again. -/
theorem step_frame (ends : c.step closed a = some c') :
    (c'.msgs.cap = c.msgs.cap ∧ c'.msgs.closed = c.msgs.closed) ∧
      (c.appender = .returned → c'.appender = .returned) := by
  cases a with
  | ask =>
    simp only [step] at ends
    split at ends <;> cases ends
    exact ⟨⟨rfl, rfl⟩, id⟩
  | fetch response =>
    simp only [step] at ends
    split at ends
    · cases response <;> cases ends <;> exact ⟨⟨rfl, rfl⟩, id⟩
    · cases ends
  | read =>
    simp only [step] at ends
    split at ends
    · cases ends
      exact ⟨⟨rfl, rfl⟩, id⟩
    · obtain ⟨appender, same⟩ := readPartition_frame ends
      exact ⟨same, appender.trans⟩
    · cases ends
  | receive =>
    simp only [step] at ends
    split at ends
    · rename_i waiting
      obtain ⟨⟨msg, msgs⟩, received, rfl⟩ := map_eq_some_iff.mp ends
      rw [(Chan.recv_eq_some received).2, waiting]
      refine ⟨⟨rfl, rfl⟩, ?_⟩
      rintro ⟨⟩
    · cases ends
  | quitFetching =>
    simp only [step] at ends
    split at ends <;> cases ends
    exact ⟨⟨rfl, rfl⟩, id⟩
  | quitAppending =>
    simp only [step] at ends
    split at ends <;> cases ends
    exact ⟨⟨rfl, rfl⟩, fun _ => rfl⟩

theorem step_wired (wired : c.Wired) (ends : c.step closed a = some c') : c'.Wired := by
  obtain ⟨⟨cap, open_⟩, -⟩ := step_frame ends
  exact ⟨cap.trans wired.1, open_.trans wired.2⟩

/-- Reading on in a response that has nothing to send, nothing is sent. -/
theorem Drained.read {p : FetchPartitionResponse} {rest : List FetchPartitionResponse}
    (waiting : c.appender = .waiting) (empty : c.msgs.queue = [])
    (quiet : sends c.offset (p :: rest) = false) (ends : c.readPartition p rest = some c') :
    c'.Drained := by
  unfold readPartition at ends
  split at ends
  · cases ends
    exact .inr (.inr ⟨waiting, empty, rfl⟩)
  · rename_i code
    rw [not_not] at code
    simp only [sends, code, decide_true, Bool.true_and] at quiet
    split at ends
    · cases ends
      exact .inr (.inr ⟨waiting, empty, rfl⟩)
    · rename_i recordSet holds
      simp only [holds] at quiet
      split at ends
      · cases ends
        exact .inl rfl
      · rename_i o reads
        simp only [reads, Bool.or_eq_false_iff, decide_eq_false_iff_not] at quiet
        rw [if_neg quiet.1] at ends
        cases ends
        exact .inr (.inr ⟨waiting, empty, quiet.2⟩)

theorem sends_of_last {offset : Int} (last : 2 ^ 63 - 1 ≤ offset)
    (todo : List FetchPartitionResponse) : sends offset todo = false := by
  induction todo with
  | nil => rfl
  | cons p rest ih =>
    cases holds : p.recordSet with
    | none => simp [sends, holds]
    | some recordSet =>
      cases reads : Commitlog.MessageSet.offset recordSet with
      | error why => simp [sends, holds, reads]
      | ok o =>
        have below : ¬ offset < o := by
          have bound := Commitlog.MessageSet.offset_lt reads
          omega
        simp [sends, holds, reads, ih, below]

/-- Once `done` is closed, goroutines that have nothing left to append stay so. -/
theorem Drained.step (drained : c.Drained) (alive : c.panicked.isSome = false)
    (ends : c.step true a = some c') : c'.Drained := by
  rcases drained with panicked | returned | ⟨waiting, empty, quiet⟩
  · rw [alive] at panicked
    cases panicked
  · exact .inr (.inl ((step_frame ends).2 returned))
  · cases a with
    | ask => simp [Copier.step] at ends
    | fetch response =>
      simp only [Copier.step] at ends
      split at ends
      · rename_i fetching
        simp only [sending, fetching, decide_eq_false_iff_not, Int.not_lt] at quiet
        cases response <;> cases ends
        · exact .inr (.inr ⟨waiting, empty, rfl⟩)
        · exact .inr (.inr ⟨waiting, empty, sends_of_last quiet _⟩)
      · cases ends
    | read =>
      simp only [Copier.step] at ends
      split at ends
      · cases ends
        exact .inr (.inr ⟨waiting, empty, rfl⟩)
      · rename_i p rest here
        simp only [sending, here] at quiet
        exact Drained.read waiting empty quiet ends
      · cases ends
    | receive =>
      have nothing : c.msgs.recv = none := by simp only [Chan.recv, empty]
      simp [Copier.step, nothing] at ends
    | quitFetching =>
      simp only [Copier.step] at ends
      split at ends <;> cases ends
      exact .inr (.inr ⟨waiting, empty, rfl⟩)
    | quitAppending =>
      simp only [Copier.step] at ends
      split at ends <;> cases ends
      exact .inr (.inl rfl)

theorem Drained.held (drained : c.Drained) (alive : c.panicked.isSome = false) : c.held = none := by
  rcases drained with panicked | returned | ⟨waiting, -, -⟩
  · rw [alive] at panicked
    cases panicked
  · simp only [Copier.held, returned]
  · simp only [Copier.held, waiting]

end Copier

namespace Handover

variable {lower : Str → Str} {hash : Bytes → UInt64} {k : Nat} {s s' : Handover} {move : Move}

theorem step_wired (wired : s.copier.Wired) (ends : s.step lower hash k move = some s') :
    s'.copier.Wired := by
  unfold step at ends
  split at ends
  · cases ends
  · cases move with
    | act a =>
      obtain ⟨c', stepped, rfl⟩ := map_eq_some_iff.mp ends
      exact Copier.step_wired wired stepped
    | append =>
      obtain ⟨msg, -, appended⟩ := map_eq_some_iff.mp ends
      split at appended <;> cases appended <;> exact wired
    | broker doing =>
      dsimp only at ends
      split at ends <;> cases ends <;> exact wired

theorem run_wired {moves : List Move} (wired : s.copier.Wired)
    (ends : run lower hash k moves s = some s') : s'.copier.Wired := by
  induction moves generalizing s with
  | nil =>
    cases ends
    exact wired
  | cons move moves ih =>
    obtain ⟨t, stepped, rest⟩ := bind_eq_some_iff.mp ends
    exact ih (step_wired wired stepped) rest

/-- With a closed replicator that has nothing left, no step is a call of `Append`, and none
changes this. -/
theorem step_silent (closed : Closed k s.broker) (drained : s.copier.Drained)
    (ends : s.step lower hash k move = some s') :
    move ≠ .append ∧ Closed k s'.broker ∧ s'.copier.Drained := by
  unfold step at ends
  split at ends
  · cases ends
  · rename_i alive
    rw [Bool.not_eq_true] at alive
    cases move with
    | act a =>
      obtain ⟨c', stepped, rfl⟩ := map_eq_some_iff.mp ends
      rw [decide_eq_true closed] at stepped
      exact ⟨nofun, closed, drained.step alive stepped⟩
    | append =>
      simp only [drained.held alive, map_none] at ends
      cases ends
    | broker doing =>
      have keeps : (perform lower hash doing).Moves Retained := perform_keeps doing
      dsimp only at ends
      split at ends
      · rename_i performed
        cases ends
        exact ⟨nofun, (keeps.of_ok performed).closed closed, drained⟩
      · rename_i performed
        cases ends
        exact ⟨nofun, (keeps.of_error performed).closed closed, .inl rfl⟩

theorem silent_of_drained (closed : Closed k s.broker) (drained : s.copier.Drained) :
    Silent lower hash k s := by
  intro moves
  induction moves generalizing s with
  | nil => exact fun _ _ => not_mem_nil
  | cons move moves ih =>
    intro s' ends
    obtain ⟨t, stepped, rest⟩ := bind_eq_some_iff.mp ends
    obtain ⟨other, closed', drained'⟩ := step_silent closed drained stepped
    intro inside
    rcases mem_cons.mp inside with first | later
    · exact other first.symm
    · exact ih closed' drained' s' rest later

theorem run_append (xs ys : List Move) (s : Handover) : run lower hash k (xs ++ ys) s =
      (run lower hash k xs s).bind (run lower hash k ys) := by
  induction xs generalizing s with
  | nil => rfl
  | cons x xs ih =>
    simp only [cons_append, run, bind_assoc]
    exact congrArg _ (funext fun t => ih t)

section

variable (lower hash k)

theorem holding_appends (alive : s.copier.panicked = none) {msg : Bytes}
    (holding : s.copier.appender = .holding msg) :
    ∃ s', run lower hash k [.append] s = some s' := by
  have held : s.copier.held = some msg := by simp only [Copier.held, holding]
  simp only [run, step, alive, held, isSome_none, Bool.false_eq_true, ↓reduceIte,
    map_some, bind_some, some.injEq, exists_eq']

/-- What is in `msgs` can be received, whether `done` is closed or not. -/
theorem queued_appends (alive : s.copier.panicked = none) (waiting : s.copier.appender = .waiting)
    (queued : s.copier.msgs.queue ≠ []) :
    ∃ s', run lower hash k [.act .receive, .append] s = some s' := by
  obtain ⟨msg, rest, split⟩ := exists_cons_of_ne_nil queued
  have received : s.copier.msgs.recv = some (msg, { s.copier.msgs with queue := rest }) := by
    simp only [Chan.recv, split]
  have stepped : ∃ t, s.step lower hash k (.act .receive) = some t ∧ t.copier.panicked = none ∧
      t.copier.appender = .holding msg := by
    simp only [step, alive, isSome_none, Bool.false_eq_true, ↓reduceIte, Copier.step, waiting,
      received, map_some]
    exact ⟨_, rfl, rfl, rfl⟩
  obtain ⟨t, stepped, alive', holding⟩ := stepped
  obtain ⟨s', appended⟩ := holding_appends lower hash k alive' holding
  exact ⟨s', by rw [run, stepped]; exact appended⟩

/-- What is going to be sent comes into `msgs`, without anyone else's help. -/
theorem sending_queues {todo : List FetchPartitionResponse} (alive : s.copier.panicked = none)
    (wired : s.copier.Wired) (empty : s.copier.msgs.queue = [])
    (reading : s.copier.fetcher = .reading todo)
    (sends : Copier.sends s.copier.offset todo = true) :
    ∃ moves s', run lower hash k moves s = some s' ∧ s'.copier.panicked = none ∧
      s'.copier.appender = s.copier.appender ∧ s'.copier.msgs.queue ≠ [] := by
  induction todo generalizing s with
  | nil => cases sends
  | cons p rest ih =>
    have read : s.step lower hash k (.act .read) =
        (s.copier.readPartition p rest).map fun copier => { s with copier } := by
      simp only [step, alive, isSome_none, Bool.false_eq_true, ↓reduceIte, Copier.step,
        reading]
    rw [Copier.sends, Bool.and_eq_true, decide_eq_true_eq] at sends
    obtain ⟨code, sends⟩ := sends
    cases holds : p.recordSet with
    | none => simp [holds] at sends
    | some recordSet =>
      simp only [holds] at sends
      cases reads : Commitlog.MessageSet.offset recordSet with
      | error why => simp [reads] at sends
      | ok o =>
        simp only [reads, Bool.or_eq_true, decide_eq_true_eq] at sends
        simp only [Copier.readPartition, code, ne_eq, not_true_eq_false, ↓reduceIte, holds,
          reads] at read
        by_cases newer : s.copier.offset < o
        · have sent := Chan.send_room wired.2
            (by rw [empty, wired.1]; decide : s.copier.msgs.queue.length < _) recordSet
          rw [if_pos newer, sent] at read
          refine ⟨[.act .read], ?_⟩
          rw [run, read]
          exact ⟨_, rfl, alive, rfl, by simp⟩
        · rw [if_neg newer] at read
          have later := sends.resolve_left newer
          obtain ⟨moves, s', ran, fine⟩ := @ih { s with copier := { s.copier with
            fetcher := .reading rest } } alive wired empty rfl later
          exact ⟨.act .read :: moves, s', by rw [run, read]; exact ran, fine⟩

/-- An answer to the call of `Fetch` with the largest of all offsets. -/
theorem fetching_queues (alive : s.copier.panicked = none)
    (wired : s.copier.Wired) (empty : s.copier.msgs.queue = [])
    (fetching : s.copier.fetcher = .fetching) (below : s.copier.offset < 2 ^ 63 - 1) :
    ∃ moves s', run lower hash k moves s = some s' ∧ s'.copier.panicked = none ∧
      s'.copier.appender = s.copier.appender ∧ s'.copier.msgs.queue ≠ [] := by
  let last : FetchPartitionResponse :=
    ⟨0, 0, 0, 0, [], some [127, 255, 255, 255, 255, 255, 255, 255]⟩
  have answered : s.step lower hash k (.act (.fetch (some ⟨0, 0, [⟨[], [last]⟩]⟩))) =
      some { s with copier := { s.copier with fetcher := .reading [last] } } := by
    simp only [step, alive, isSome_none, Bool.false_eq_true, ↓reduceIte, Copier.step, fetching]
    rfl
  have reads : Commitlog.MessageSet.offset [127, 255, 255, 255, 255, 255, 255, 255] =
      .ok (2 ^ 63 - 1) := by decide
  have sends : Copier.sends s.copier.offset [last] = true := by
    simp only [Copier.sends, last, reads, decide_eq_true below]
    rfl
  obtain ⟨moves, s', ran, fine⟩ := @sending_queues lower hash k { s with copier :=
    { s.copier with fetcher := .reading [last] } } _ alive wired empty rfl sends
  exact ⟨_ :: moves, s', by rw [run, answered]; exact ran, fine⟩

end

theorem drained_of_silent (wired : s.copier.Wired) (silent : Silent lower hash k s) :
    s.copier.Drained := by
  cases alive : s.copier.panicked with
  | some why => exact .inl (by rw [alive]; rfl)
  | none =>
    cases here : s.copier.appender with
    | returned => exact .inr (.inl here)
    | holding msg =>
      obtain ⟨s', ran⟩ := holding_appends lower hash k alive here
      exact absurd (mem_cons_self ..) (silent _ s' ran)
    | waiting =>
      refine .inr (.inr ⟨here, ?_⟩)
      by_cases empty : s.copier.msgs.queue = []
      · refine ⟨empty, ?_⟩
        by_contra sending
        rw [Bool.not_eq_false] at sending
        have queues : ∃ moves t, run lower hash k moves s = some t ∧ t.copier.panicked = none ∧
            t.copier.appender = s.copier.appender ∧ t.copier.msgs.queue ≠ [] := by
          cases reading : s.copier.fetcher with
          | asking => simp [Copier.sending, reading] at sending
          | returned => simp [Copier.sending, reading] at sending
          | fetching =>
            simp only [Copier.sending, reading, decide_eq_true_eq] at sending
            exact fetching_queues lower hash k alive wired empty reading sending
          | reading todo =>
            simp only [Copier.sending, reading] at sending
            exact sending_queues lower hash k alive wired empty reading sending
        obtain ⟨moves, t, ran, alive', same, queued⟩ := queues
        obtain ⟨s', appended⟩ := queued_appends lower hash k alive' (same.trans here) queued
        have whole : run lower hash k (moves ++ [.act .receive, .append]) s = some s' := by
          rw [run_append, ran]
          exact appended
        exact silent _ s' whole (by simp)
      · obtain ⟨s', ran⟩ := queued_appends lower hash k alive here empty
        exact absurd (by simp) (silent _ s' ran)

theorem closeReplicator_closed (ends : (closeReplicator k).run b = .ok () b') : Closed k b' := by
  unfold closeReplicator at ends
  dsimp only at ends
  split at ends
  · cases ends
  · rename_i x here
    obtain ⟨inside, -⟩ := List.getElem?_eq_some_iff.mp here
    split at ends
    · cases ends
    · cases ends
      exact ⟨_, getElem?_set_self inside, rfl⟩

/-- A follower's replicator is closed when it becomes the leader. -/
theorem becomeLeader_closed {r : Nat} {replica : Replica} {cmd : PartitionState}
    {code : ErrorCode} (here : b.replicas[r]? = some replica) (follows : replica.replicator = some k)
    (ends : (becomeLeader r cmd).run b = .ok code b') : Closed k b' := by
  unfold becomeLeader at ends
  rw [bind_ok (getReplica_run here)] at ends
  obtain ⟨_, t, stopped, rest⟩ := bind_eq_ok ends
  rw [stopReplicator, follows] at stopped
  have closed := closeReplicator_closed stopped
  obtain ⟨_, t', set, last⟩ := bind_eq_ok rest
  cases set
  cases last
  exact closed

/-- A replicator that is closed, by `Close` itself or by `becomeLeader`, is silent from then on
if and only if its goroutines have nothing left to append. -/
theorem close_silent_iff {b₀ : Broker} {moves : List Move}
    (reached : run lower hash k moves ⟨b₀, .start⟩ = some s) :
    (∀ b', (closeReplicator k).run s.broker = .ok () b' →
      (Silent lower hash k ⟨b', s.copier⟩ ↔ s.copier.Drained)) ∧
    ∀ r replica cmd code b', s.broker.replicas[r]? = some replica → replica.replicator = some k →
      (becomeLeader r cmd).run s.broker = .ok code b' →
      (Silent lower hash k ⟨b', s.copier⟩ ↔ s.copier.Drained) := by
  have wired : s.copier.Wired := run_wired ⟨rfl, rfl⟩ reached
  refine ⟨fun b' ends => ?_, fun r replica cmd code b' here follows ends => ?_⟩
  · exact ⟨drained_of_silent (s := ⟨b', s.copier⟩) wired,
      silent_of_drained (s := ⟨b', s.copier⟩) (closeReplicator_closed ends)⟩
  · exact ⟨drained_of_silent (s := ⟨b', s.copier⟩) wired,
      silent_of_drained (s := ⟨b', s.copier⟩) (becomeLeader_closed here follows ends)⟩

/-- A broker that follows broker 2, with its replicator 0 just started. -/
def following : Handover :=
  ⟨((handleLeaderAndISR id (elects 2).req).run replicating).state, .start⟩

/-- The partition 0 of `t` is handed to this broker. -/
def leads : PartitionState := ⟨ascii "t", 0, 0, 1, 1, [1, 2], 1, [1, 2], false⟩

/-- The leader sends a record set that starts with offset 1, and it is queued. -/
def queuesOne : List Move :=
  [.act .ask, .act (.fetch (some ⟨0, 0, [⟨ascii "t", [⟨0, 0, 2, 0, [], some (Commitlog.MessageSet.stamp 1
    (Commitlog.plainSet [7]))⟩]⟩]⟩)), .act .read]

/-- A replicator that has fetched nothing yet. -/
theorem close_silent_idle :
    ∃ b', (closeReplicator 0).run following.broker = .ok () b' ∧
      Silent id (fun _ => 0) 0 ⟨b', following.copier⟩ := by
  have drained : following.copier.Drained := by decide
  obtain ⟨b', ends⟩ : ∃ b', (closeReplicator 0).run following.broker = .ok () b' :=
    ⟨_, Result.eq_ok_of_returned (by decide +kernel)⟩
  have reached : run id (fun _ => 0) 0 [] ⟨following.broker, .start⟩ =
      some following := rfl
  exact ⟨b', ends, ((close_silent_iff reached).1 b' ends).mpr drained⟩

/-- The broker leads the partition, and what was fetched from the old leader is appended. -/
theorem leader_appends_fetched :
    (run id (fun _ => 0) 0 (queuesOne ++ [.broker (.becomeLeader 0 leads)])
      following).map (fun s => ((found s.broker (ascii "t") 0).map fun replica =>
        (replica.partition.leader, replica.replicator), decide (Closed 0 s.broker),
        ((onLog 0 Commitlog.newestOffset).run s.broker).returned)) =
      some (some (1, none), true, some 0) ∧
    (run id (fun _ => 0) 0 (queuesOne ++ [.broker (.becomeLeader 0 leads)] ++
      [.act .receive, .append]) following).map (fun s =>
        ((onLog 0 Commitlog.newestOffset).run s.broker).returned) = some (some 1) := by
  decide +kernel

end Handover

end Jocko.Broker
