import Jocko.Broker.Separation
import Jocko.Commitlog.AppendSteps

namespace Jocko.Broker

open Go Fsm Protocol Cluster List
open Commitlog (Segment View World MessageSet.stamp append appendActive appendActive_steps
  append_steps enter msgSetHeaderLen plainSet reserve roll store)

/-- How far the goroutine of a partition has come. `Append` takes no lock, so that others can run
between its steps. -/
inductive Phase where
  | begin
  | known
  | located (log : Nat)
  | taken (log : Nat) (records : Bytes)
  | rolled (log : Nat) (records : Bytes)
  | reserved (log : Nat) (records : Bytes) (position offset : Int)
  | written (log : Nat) (position offset : Int)
  | done (code : ErrorCode) (offset : Option Int)
  | ended (code : ErrorCode) (offset : Option Int)

/-- The function has not returned yet. -/
def Phase.busy : Phase → Bool
  | .ended _ _ => false
  | _ => true

/-- A partition of the request whose turn has come, with the topic's place in the request: its
goroutine, and its part of the response, which the caller of `withTimeout` writes to as well. A
caller that has waited closes the channel for the result when it returns. -/
structure Slot where
  loop : Nat
  topic : Str
  data : Data
  phase : Phase
  waits : Bool
  returned : Bool
  res : ProducePartitionResponse

namespace Slot

/-- `withTimeout` is called for a partition. With no timeout its caller has `ErrNone` at once. -/
def begin (timeout : Int) (loop : Nat) (topic : Str) (data : Data) : Slot :=
  if timeout ≤ 0 then ⟨loop, topic, data, .begin, false, true,
    { blankProduced data with errorCode := ErrorCode.none.code }⟩
  else ⟨loop, topic, data, .begin, true, false, blankProduced data⟩

/-- The function writes into the response and returns. A send on a closed channel panics. -/
def report (now : Int) (partition : Int32) (slot : Slot) : Option Slot :=
  match slot.phase with
  | .done code offset =>
    if slot.waits ∧ slot.returned then none
    else some { slot with
      phase := .ended code offset
      res := recordProduced now partition (code, offset) slot.res }
  | _ => none

/-- `withTimeout` returns, and its caller writes the result into the response. -/
def told (code : ErrorCode) (slot : Slot) : Slot :=
  { slot with returned := true, res := { slot.res with errorCode := code.code } }

/-- The caller receives what the function has returned. -/
def receive (slot : Slot) : Option Slot :=
  match slot.phase, slot.returned with
  | .ended code _, false => some (slot.told code)
  | _, _ => none

/-- The timer has fired before, and the `select` takes it. -/
def expire (slot : Slot) : Option Slot :=
  if slot.returned then none else some (slot.told .requestTimedOut)

end Slot

/-- The partitions of a request, in their order. -/
def entries (topicData : List TopicData) : List (Str × Data) :=
  topicData.flatMap fun td => td.data.map fun data => (td.topic, data)

/-- `handleProduce` on its way: the topics that are still to come, the one that `td` is at with
those of its partitions that are still to come, and the partitions that were called for. -/
structure Serving where
  broker : Broker
  todo : List TopicData
  loop : Nat
  topic : Str
  rest : List Data
  slots : List Slot

/-- Who takes a step: the caller goes on to the next topic or the next partition, or a goroutine
goes on with its function or returns from it, or the caller returns from a `withTimeout`. -/
inductive Move where
  | next
  | call
  | work (i : Nat)
  | report (i : Nat) (now : Int)
  | receive (i : Nat)
  | expire (i : Nat)

section

variable (lower : Str → Str) (hash : Bytes → UInt64)

/-- A step of `Append`; its error is answered with `ErrUnknown`. -/
def proceed {α : Type} (call : Call Broker α) (phase : α → Phase) : Call Broker Phase := do
  match ← attempt call with
  | .error _ => return .done .unknown none
  | .ok value => return phase value

/-- One step of the function that `handleProduce` runs for a partition. -/
def advance (topic : Str) (data : Data) : Phase → Call Broker Phase
  | .begin => do
    let s ← onCluster state
    match (s.getTopic lower topic).2 with
    | none => return .done .unknownTopicOrPartition none
    | some _ => return .known
  | .known => do
    match ← findLog topic data.partition with
    | .error code => return .done code none
    | .ok log => return .located log
  | .located log => return .taken log (data.recordSet.getD [])
  | .taken log records => proceed (onLog log (roll hash)) fun _ => .rolled log records
  | .rolled log records => proceed (onLog log reserve) fun (position, offset) =>
    .reserved log records position offset
  | .reserved log records position offset =>
    proceed (onLog log (store records offset)) fun _ => .written log position offset
  | .written log position offset =>
    proceed (onLog log (enter position offset)) fun _ => .done .none (some offset)
  | phase => return phase

namespace Serving

def start (b : Broker) (req : ProduceRequest) : Serving := ⟨b, req.topicData, 0, [], [], []⟩

/-- The caller waits for nobody. -/
def idle (s : Serving) : Bool := s.slots.all Slot.returned

def next (s : Serving) : Option Serving :=
  match s.rest, s.todo with
  | [], td :: todo =>
    if s.idle then some { s with todo, loop := s.loop + 1, topic := td.topic, rest := td.data }
    else none
  | _, _ => none

def call (timeout : Int) (s : Serving) : Option Serving :=
  match s.rest with
  | [] => none
  | data :: rest =>
    if s.idle then
      some { s with rest, slots := s.slots ++ [Slot.begin timeout s.loop s.topic data] }
    else none

/-- The variable `p` of the loop that has called for a partition. Its function has no copy of it,
nor of `td`, which is one variable for all topics. -/
def p (s : Serving) (slot : Slot) : Data :=
  ((s.slots.filter fun other => other.loop = slot.loop).getLastD slot).data

/-- A goroutine that panics takes the process with it. -/
def work (i : Nat) (s : Serving) : Option Serving := do
  let slot ← s.slots[i]?
  if slot.phase.busy then
    match (advance lower hash s.topic (s.p slot) slot.phase).run s.broker with
    | .ok phase broker => some { s with broker, slots := s.slots.set i { slot with phase } }
    | .error _ _ => none
  else none

/-- A step of the slot at a place. -/
def alter (i : Nat) (f : Slot → Option Slot) (s : Serving) : Option Serving := do
  let slot ← f (← s.slots[i]?)
  some { s with slots := s.slots.set i slot }

def step (timeout : Int) (s : Serving) : Move → Option Serving
  | .next => s.next
  | .call => s.call timeout
  | .work i => s.work lower hash i
  | .report i now => s.alter i fun slot => slot.report now (s.p slot).partition
  | .receive i => s.alter i Slot.receive
  | .expire i => s.alter i Slot.expire

/-- Any order of the steps. -/
def run (timeout : Int) (s : Serving) : List Move → Option Serving
  | [] => some s
  | m :: ms => (s.step lower hash timeout m).bind fun s => run timeout s ms

/-- A caller returns before the function that it has started has. -/
def early (s : Serving) : Move → Bool
  | .expire i => s.slots[i]?.any fun slot => slot.phase.busy
  | _ => false

def Patient (timeout : Int) : List Move → Serving → Bool
  | [], _ => true
  | m :: ms, s => !s.early m && (s.step lower hash timeout m).all (Patient timeout ms)

/-- The loops of `handleProduce` are done. -/
def Finished (s : Serving) : Prop := s.todo = [] ∧ s.rest = [] ∧ s.idle = true

end Serving

end

/-- The responses of the partitions, topic by topic. -/
def regroup : List TopicData → List ProducePartitionResponse → List ProduceTopicResponse
  | [], _ => []
  | td :: topicData, responses =>
    ⟨td.topic, responses.take td.data.length⟩ :: regroup topicData (responses.drop td.data.length)

def Serving.response (req : ProduceRequest) (s : Serving) : ProduceResponse :=
  ⟨req.apiVersion, regroup req.topicData (s.slots.map Slot.res), 0⟩

/-- The log of a partition has the record set at the offset: one of its segments stores it there. -/
def Holds (b : Broker) (topic : Str) (partition : Int32) (offset : Int) (p : Bytes) : Prop :=
  ∃ replica n log r s base recs, found b topic partition = some replica ∧ replica.log = some n ∧
    b.logs[n]? = some log ∧ r ∈ log.segments ∧ b.segs[r]? = some s ∧
    Segment.Stores s b.disk base recs ∧ ∃ j : Nat, offset = (base + j : Nat) ∧
      recs[j]? = some (MessageSet.stamp offset p)

/-- One response for every partition of the request, in its order. -/
def Answers (P : Str → Data → ProducePartitionResponse → Prop) (req : ProduceRequest)
    (res : ProduceResponse) : Prop :=
  List.Forall₂ (fun td tres => tres.topic = td.topic ∧
    List.Forall₂ (P td.topic) td.data tres.partitionResponses) req.topicData res.responses

/-- The response for a partition; without an error, the record set is where it says. -/
def Acknowledged (b : Broker) (topic : Str) (data : Data) (res : ProducePartitionResponse) : Prop :=
  res.partition = data.partition ∧ (res.errorCode = ErrorCode.none.code →
    Holds b topic data.partition res.baseOffset (data.recordSet.getD []))

/-- A broker whose open logs keep all their records, each in a directory of its own. -/
structure Ready (b : Broker) : Prop where
  linked : Linked b
  lodged : ∀ replica ∈ b.replicas, ∀ n, replica.log = some n → n < b.logs.length
  housed : ∃ rs older active, Housed b rs older active

section

variable (lower : Str → Str) (hash : Bytes → UInt64)

/-- The answer to an append. -/
def settle (call : Call Broker Int) : Call Broker (ErrorCode × Option Int) := do
  match ← attempt call with
  | .error _ => return (.unknown, none)
  | .ok offset => return (.none, some offset)

/-- What is left of the function in a phase, if nobody interferes. -/
def complete (topic : Str) (data : Data) : Phase → Call Broker (ErrorCode × Option Int)
  | .begin => produce lower hash topic data
  | .known => do
    match ← findLog topic data.partition with
    | .error code => return (code, none)
    | .ok log => settle (onLog log (append hash (data.recordSet.getD [])))
  | .located log => settle (onLog log (append hash (data.recordSet.getD [])))
  | .taken log records => settle (onLog log (append hash records))
  | .rolled log records => settle (onLog log (appendActive records))
  | .reserved log records position offset => settle (onLog log do
      store records offset
      enter position offset
      return offset)
  | .written log position offset => settle (onLog log do
      enter position offset
      return offset)
  | .done code offset => return (code, offset)
  | .ended code offset => return (code, offset)

end

variable {lower : Str → Str} {hash : Bytes → UInt64}

theorem onLog_bind {α β : Type} (n : Nat) (call : Call World α)
    (next : α → Call World β) :
    onLog n (call >>= next) = onLog n call >>= fun value => onLog n (next value) := by
  refine Call.ext fun b => ?_
  cases here : b.logs[n]? with
  | none => simp only [onLog, here, bind]
  | some log =>
    have inside := (List.getElem?_eq_some_iff.mp here).1
    cases ends : call.run (b.world log) with
    | error why w => simp only [onLog, here, bind, ends]
    | ok value w =>
      have there : (b.logs.set n w.log)[n]? = some w.log := getElem?_set_self inside
      simp only [onLog, here, bind, ends]
      simp only [setWorld, there, Broker.world, set_set]

theorem onLog_map {α β : Type} (n : Nat) (call : Call World α) (f : α → β) :
    onLog n (do return f (← call)) = do return f (← onLog n call) := by
  refine Call.ext fun b => ?_
  cases here : b.logs[n]? with
  | none => simp only [onLog, here, bind]
  | some log =>
    cases ends : call.run (b.world log) with
    | error why w => simp only [onLog, here, bind, ends]
    | ok value w => simp only [onLog, here, bind, ends, run_pure]

theorem settle_bind {α : Type} (topic : Str) (data : Data) (n : Nat) (call : Call World α)
    {next : α → Call World Int} {phase : α → Phase}
    (rest : ∀ value, complete lower hash topic data (phase value) = settle (onLog n (next value))) :
    settle (onLog n (call >>= next)) =
      proceed (onLog n call) phase >>= complete lower hash topic data := by
  unfold settle proceed
  rw [onLog_bind, attempt_bind, bind_assoc, bind_assoc]
  congr 1
  funext outcome
  cases outcome with
  | error cause => rfl
  | ok value => exact (rest value).symm

variable {phase : Phase}

/-- Nothing is lost between the steps of the function. -/
theorem complete_eq (topic : Str) (data : Data) (phase : Phase) :
    complete lower hash topic data phase =
      advance lower hash topic data phase >>= complete lower hash topic data := by
  cases phase with
  | begin =>
    change produce lower hash topic data = _
    unfold advance produce openLog
    rw [bind_assoc, bind_assoc]
    congr 1
    funext s
    cases (s.getTopic lower topic).2 with
    | none => rfl
    | some row => rfl
  | known =>
    unfold advance
    rw [bind_assoc]
    change findLog topic data.partition >>= _ = _
    congr 1
    funext located
    cases located with
    | error code => rfl
    | ok log => rfl
  | located log => rfl
  | taken log records =>
    unfold advance
    rw [← settle_bind topic data log (roll hash) fun _ => rfl, ← append_steps]
    rfl
  | rolled log records =>
    unfold advance
    rw [← settle_bind topic data log reserve fun _ => rfl, ← appendActive_steps]
    rfl
  | reserved log records position offset =>
    unfold advance
    rw [← settle_bind topic data log _ fun _ => rfl]
    rfl
  | written log position offset =>
    change settle (onLog log (do
      let _ ← enter position offset
      return offset)) = _
    unfold advance settle proceed
    rw [onLog_map log (enter position offset) fun _ => offset, attempt_bind, bind_assoc,
      bind_assoc]
    congr 1
    funext outcome
    cases outcome with
    | error cause => rfl
    | ok _ => rfl
  | done code offset => rfl
  | ended code offset => rfl

/-- The history of the partition's log has the record set at the offset. -/
def Booked (b : Broker) (rs : Nat → List Bytes) (topic : Str) (data : Data) (offset : Option Int) :
    Prop :=
  ∃ (o : Nat) (replica : Replica) (n : Nat), offset = some (o : Int) ∧
    found b topic data.partition = some replica ∧ replica.log = some n ∧
    (rs n)[o]? = some (MessageSet.stamp o (data.recordSet.getD []))

variable {b : Broker} {rs : Nat → List Bytes} {topic : Str} {data : Data}

theorem Booked.holds {older : Nat → List View}
    {active : Nat → View} {offset : Int} (housed : Housed b rs older active)
    (lodged : ∀ replica ∈ b.replicas, ∀ n, replica.log = some n → n < b.logs.length)
    (booked : Booked b rs topic data (some offset)) :
    Holds b topic data.partition offset (data.recordSet.getD []) := by
  obtain ⟨o, replica, n, same, here, taken, record⟩ := booked
  obtain rfl := Option.some.inj same
  obtain ⟨r, -, present⟩ := Option.bind_eq_some_iff.mp here
  have there := getElem?_eq_getElem (lodged replica (mem_of_getElem? present) n taken)
  obtain ⟨lasting, kept⟩ := housed.kept n _ there
  obtain ⟨ref, listed, s, base, recs, object, stores, j, place, found⟩ :=
    kept.stores lasting.bounded record
  exact ⟨replica, n, _, ref, s, base, recs, here, taken, there, listed, object, stores, j,
    by rw [place], found⟩

/-- An append behind the records of a log leaves them where they are. -/
theorem Booked.grow {b' : Broker}
    {offset : Option Int} (booked : Booked b rs topic data offset) (n : Nat) (record : Bytes)
    (same : found b' topic data.partition = found b topic data.partition) :
    Booked b' (Function.update rs n (rs n ++ [record])) topic data offset := by
  obtain ⟨o, replica, m, place, here, taken, present⟩ := booked
  refine ⟨o, replica, m, place, same.trans here, taken, ?_⟩
  by_cases own : m = n
  · subst own
    have inside := (List.getElem?_eq_some_iff.mp present).1
    rw [Function.update_self, List.getElem?_append_left inside, present]
  · rw [Function.update_of_ne own, present]

/-- What a slot whose caller waits can be relied on for. -/
structure Slot.Sound (b : Broker) (rs : Nat → List Bytes) (slot : Slot) : Prop where
  partition : slot.res.partition = slot.data.partition
  booked : ∀ offset, slot.phase = .ended .none offset → Booked b rs slot.topic slot.data offset
  recorded : ∀ code offset, slot.phase = .ended code (some offset) → slot.res.baseOffset = offset
  ended : slot.returned = true → slot.phase.busy = false
  fine : slot.returned = true → slot.res.errorCode = ErrorCode.none.code →
    ∃ offset, slot.phase = .ended .none offset

/-- The partitions that are still to be called for. -/
def Serving.ahead (s : Serving) : List (Str × Data) :=
  s.rest.map (fun data => (s.topic, data)) ++ entries s.todo

/-- What holds while no caller returns too early: the broker is as the functions that have
returned left it, except for what one of them, that of the last partition, has done so far. -/
structure Serving.Sound (b : Broker) (rs : Nat → List Bytes) (older : Nat → List View)
    (active : Nat → View) (lower : Str → Str) (hash : Bytes → UInt64) (s : Serving) : Prop where
  linked : Linked b
  lodged : ∀ replica ∈ b.replicas, ∀ n, replica.log = some n → n < b.logs.length
  housed : Housed b rs older active
  wide : (∀ e ∈ s.ahead, msgSetHeaderLen ≤ (e.2.recordSet.getD []).length) ∧
    ∀ slot ∈ s.slots, msgSetHeaderLen ≤ (slot.data.recordSet.getD []).length
  slots : ∀ slot ∈ s.slots, slot.Sound b rs
  broker : (s.broker = b ∧ ∀ slot ∈ s.slots, slot.phase.busy = false) ∨
    ∃ init last, s.slots = init ++ [last] ∧ last.phase.busy = true ∧ last.topic = s.topic ∧
      (∀ slot ∈ init, slot.phase.busy = false) ∧
      (complete lower hash last.topic last.data last.phase).run s.broker =
        (produce lower hash last.topic last.data).run b

variable {slot slot' : Slot}

namespace Slot

theorem report_cases {now : Int} {partition : Int32} (taken : slot.report now partition = some slot') :
    ∃ code offset, slot.phase = .done code offset ∧ slot' = { slot with
      phase := .ended code offset
      res := recordProduced now partition (code, offset) slot.res } := by
  unfold report at taken
  split at taken
  · rename_i code offset done
    split at taken
    · cases taken
    · cases taken
      exact ⟨code, offset, done, rfl⟩
  · cases taken

theorem receive_cases (taken : slot.receive = some slot') :
    ∃ code offset, slot.phase = .ended code offset ∧ slot' = slot.told code := by
  unfold receive at taken
  split at taken
  · rename_i code offset ended _
    cases taken
    exact ⟨code, offset, ended, rfl⟩
  · cases taken

theorem expire_cases (taken : slot.expire = some slot') : slot' = slot.told .requestTimedOut := by
  unfold expire at taken
  split at taken
  · cases taken
  · cases taken
    rfl

end Slot

namespace Serving

variable {timeout : Int} {s s' : Serving} {i : Nat}

theorem next_cases (taken : s.next = some s') : ∃ td todo, s.rest = [] ∧ s.todo = td :: todo ∧
    s.idle = true ∧ s' = { s with todo, loop := s.loop + 1, topic := td.topic, rest := td.data } := by
  unfold next at taken
  split at taken
  · rename_i td todo past ahead
    split at taken
    · rename_i idle
      cases taken
      exact ⟨td, todo, past, ahead, idle, rfl⟩
    · cases taken
  · cases taken

theorem call_cases (taken : s.call timeout = some s') : ∃ data rest, s.rest = data :: rest ∧
    s.idle = true ∧
      s' = { s with rest, slots := s.slots ++ [Slot.begin timeout s.loop s.topic data] } := by
  unfold call at taken
  split at taken
  · cases taken
  · rename_i data rest next
    split at taken
    · rename_i idle
      cases taken
      exact ⟨data, rest, next, idle, rfl⟩
    · cases taken

theorem p_last {init : List Slot} (shape : s.slots = init ++ [slot]) : s.p slot = slot.data := by
  unfold p
  rw [shape, filter_append, filter_cons_of_pos (by simp), filter_nil, getLastD_concat]

theorem work_cases (taken : s.work lower hash i = some s') : ∃ slot phase broker,
    s.slots[i]? = some slot ∧ slot.phase.busy = true ∧
    (advance lower hash s.topic (s.p slot) slot.phase).run s.broker = .ok phase broker ∧
    s' = { s with broker, slots := s.slots.set i { slot with phase } } := by
  obtain ⟨slot, here, taken⟩ := Option.bind_eq_some_iff.mp taken
  split at taken
  · rename_i busy
    split at taken
    · rename_i phase broker advanced
      cases taken
      exact ⟨slot, phase, broker, here, busy, advanced, rfl⟩
    · cases taken
  · cases taken

theorem alter_cases {f : Slot → Option Slot} (taken : s.alter i f = some s') : ∃ slot slot',
    s.slots[i]? = some slot ∧ f slot = some slot' ∧
      s' = { s with slots := s.slots.set i slot' } := by
  obtain ⟨slot, here, taken⟩ := Option.bind_eq_some_iff.mp taken
  obtain ⟨slot', stepped, taken⟩ := Option.bind_eq_some_iff.mp taken
  cases taken
  exact ⟨slot, slot', here, stepped, rfl⟩

/-- The slots are those of the partitions that were called for, in the order of the request. -/
def Ordered (req : ProduceRequest) (s : Serving) : Prop :=
  (s.slots.map fun slot => (slot.topic, slot.data)) ++ s.ahead = entries req.topicData

variable {req : ProduceRequest}

theorem forall_set {β : Type} {P : β → Prop} {l : List β} {x : β} (old : ∀ y ∈ l, P y) (new : P x)
    (i : Nat) : ∀ y ∈ l.set i x, P y := by
  intro y present
  rcases mem_or_eq_of_mem_set present with before | rfl
  · exact old y before
  · exact new

theorem Ordered.set (ordered : Ordered req s) (here : s.slots[i]? = some slot) (slot' : Slot)
    (topic : slot'.topic = slot.topic) (data : slot'.data = slot.data) (broker : Broker) :
    Ordered req { s with broker, slots := s.slots.set i slot' } := by
  obtain ⟨inside, rfl⟩ := List.getElem?_eq_some_iff.mp here
  have same : (s.slots.set i slot').map (fun slot => (slot.topic, slot.data)) =
      s.slots.map fun slot => (slot.topic, slot.data) := by
    calc (s.slots.set i slot').map (fun slot => (slot.topic, slot.data))
        = (s.slots.map fun slot => (slot.topic, slot.data)).set i (slot'.topic, slot'.data) :=
          map_set
      _ = (s.slots.set i s.slots[i]).map fun slot => (slot.topic, slot.data) := by
          rw [topic, data, map_set]
      _ = s.slots.map fun slot => (slot.topic, slot.data) := by rw [set_getElem_self]
  unfold Ordered
  rw [same]
  exact ordered

theorem ahead_next {td : TopicData} {todo : List TopicData} (past : s.rest = [])
    (next : s.todo = td :: todo) :
    ahead { s with todo, loop := s.loop + 1, topic := td.topic, rest := td.data } = s.ahead := by
  unfold ahead
  rw [past, next]
  rfl

theorem Ordered.step {m : Move} (ordered : Ordered req s)
    (taken : s.step lower hash timeout m = some s') : Ordered req s' := by
  cases m with
  | next =>
    obtain ⟨td, todo, past, next, -, rfl⟩ := next_cases taken
    unfold Ordered
    rw [ahead_next past next]
    exact ordered
  | call =>
    obtain ⟨data, rest, next, -, rfl⟩ := call_cases taken
    have new : ((Slot.begin timeout s.loop s.topic data).topic,
        (Slot.begin timeout s.loop s.topic data).data) = (s.topic, data) := by
      unfold Slot.begin
      split <;> rfl
    unfold Ordered ahead at ordered ⊢
    rw [next] at ordered
    rw [← ordered, map_append, append_assoc, map_singleton, new]
    rfl
  | work i =>
    obtain ⟨slot, phase, broker, here, -, -, rfl⟩ := work_cases taken
    exact ordered.set here { slot with phase } rfl rfl broker
  | report i now =>
    obtain ⟨slot, slot', here, stepped, rfl⟩ := alter_cases taken
    obtain ⟨code, offset, -, same⟩ := Slot.report_cases stepped
    exact ordered.set here slot' (by rw [same]) (by rw [same]) s.broker
  | receive i =>
    obtain ⟨slot, slot', here, stepped, rfl⟩ := alter_cases taken
    obtain ⟨code, offset, -, rfl⟩ := Slot.receive_cases stepped
    exact ordered.set here (slot.told code) rfl rfl s.broker
  | expire i =>
    obtain ⟨slot, slot', here, stepped, rfl⟩ := alter_cases taken
    obtain rfl := Slot.expire_cases stepped
    exact ordered.set here (slot.told .requestTimedOut) rfl rfl s.broker

theorem Ordered.run {ms : List Move} (ordered : Ordered req s)
    (ran : s.run lower hash timeout ms = some s') : Ordered req s' := by
  induction ms generalizing s with
  | nil =>
    cases ran
    exact ordered
  | cons m ms ih =>
    obtain ⟨s₁, taken, rest⟩ := Option.bind_eq_some_iff.mp ran
    exact ih (ordered.step taken) rest

end Serving

/-- What holds of every partition and its response holds of the whole response. -/
theorem forall₂_regroup {P : Str → Data → ProducePartitionResponse → Prop} {topicData : List TopicData}
    {responses : List ProducePartitionResponse}
    (each : List.Forall₂ (fun e pres => P e.1 e.2 pres) (entries topicData) responses) :
    List.Forall₂ (fun td tres => tres.topic = td.topic ∧
      List.Forall₂ (P td.topic) td.data tres.partitionResponses) topicData
        (regroup topicData responses) := by
  induction topicData generalizing responses with
  | nil => exact .nil
  | cons td topicData ih =>
    have split : entries (td :: topicData) =
        td.data.map (fun data => (td.topic, data)) ++ entries topicData := rfl
    rw [split] at each
    have count : (td.data.map fun data => (td.topic, data)).length = td.data.length := by simp
    refine .cons ⟨rfl, ?_⟩ (ih ?_)
    · have first := forall₂_take td.data.length each
      rw [take_left' count, forall₂_map_left_iff] at first
      exact first
    · have rest := forall₂_drop td.data.length each
      rwa [drop_left' count] at rest

/-- The function does not return before its goroutine says so. -/
theorem advance_busy {phase' : Phase} {b' : Broker} (busy : phase.busy = true)
    (advanced : (advance lower hash topic data phase).run b = .ok phase' b') :
    phase'.busy = true := by
  have proceeds {α : Type} {call : Call Broker α} {next : α → Phase} {b b' : Broker}
      (ran : (proceed call next).run b = .ok phase' b') (fine : ∀ value, (next value).busy = true) :
      phase'.busy = true := by
    obtain ⟨outcome, b₁, -, ran⟩ := bind_eq_ok ran
    cases outcome with
    | error cause =>
      cases ran
      rfl
    | ok value =>
      cases ran
      exact fine value
  cases phase with
  | begin =>
    obtain ⟨s, b₁, -, ran⟩ := bind_eq_ok advanced
    split at ran <;> cases ran <;> rfl
  | known =>
    obtain ⟨located, b₁, -, ran⟩ := bind_eq_ok advanced
    split at ran <;> cases ran <;> rfl
  | located log =>
    cases advanced
    rfl
  | taken log records => exact proceeds advanced fun _ => rfl
  | rolled log records => exact proceeds advanced fun _ => rfl
  | reserved log records position offset => exact proceeds advanced fun _ => rfl
  | written log position offset => exact proceeds advanced fun _ => rfl
  | done code offset =>
    cases advanced
    rfl
  | ended code offset => cases busy

namespace Slot.Sound

variable {b : Broker} {rs : Nat → List Bytes} {slot : Slot}

theorem grow (sound : slot.Sound b rs) (b' : Broker) (replicas : b'.replicas = b.replicas)
    (lookup : b'.lookup = b.lookup) (n : Nat) (record : Bytes) :
    slot.Sound b' (Function.update rs n (rs n ++ [record])) := by
  refine ⟨sound.partition, fun offset here => (sound.booked offset here).grow n record ?_,
    sound.recorded, sound.ended, sound.fine⟩
  unfold found
  rw [replicas, lookup]

theorem begin {timeout : Int} (positive : 0 < timeout) (loop : Nat) (topic : Str) (data : Data) :
    (Slot.begin timeout loop topic data).Sound b rs := by
  unfold Slot.begin
  rw [if_neg (Int.not_le.mpr positive)]
  exact ⟨rfl, nofun, nofun, nofun, nofun⟩

/-- The caller returns behind the function, or with an error. -/
theorem told (sound : slot.Sound b rs) (code : ErrorCode) (ended : slot.phase.busy = false)
    (fine : code = .none → ∃ offset, slot.phase = .ended .none offset) :
    (slot.told code).Sound b rs := by
  refine ⟨sound.partition, sound.booked, sound.recorded, fun _ => ended, fun _ same => fine ?_⟩
  change code.code = ErrorCode.none.code at same
  revert same
  cases code <;> decide

/-- The function returns, in a broker that has its record set if it says so. -/
theorem report (sound : slot.Sound b rs) {code : ErrorCode} {offset : Option Int}
    (done : slot.phase = .done code offset) (now : Int) {b' : Broker} {rs' : Nat → List Bytes}
    (booked : code = .none → Booked b' rs' slot.topic slot.data offset) :
    ({ slot with
      phase := .ended code offset
      res := recordProduced now slot.data.partition (code, offset) slot.res } : Slot).Sound b' rs' := by
  refine ⟨?_, fun offset' here => ?_, fun code' offset' here => ?_, fun _ => rfl, fun returned => ?_⟩
  · unfold recordProduced
    split
    · exact sound.partition
    · rfl
    · exact sound.partition
  · cases here
    exact booked rfl
  · cases here
    rfl
  · have ended := sound.ended returned
    rw [done] at ended
    cases ended

end Slot.Sound

namespace Serving.Sound

variable {b : Broker} {rs : Nat → List Bytes} {older : Nat → List View} {active : Nat → View}
  {s s' : Serving} {timeout : Int} {i : Nat}

/-- The slot at work is the last. -/
theorem last (sound : Sound b rs older active lower hash s) (here : s.slots[i]? = some slot)
    (busy : slot.phase.busy = true) : ∃ init, i = init.length ∧ s.slots = init ++ [slot] ∧
      slot.topic = s.topic ∧ (∀ other ∈ init, other.phase.busy = false) ∧
      (complete lower hash slot.topic slot.data slot.phase).run s.broker =
        (produce lower hash slot.topic slot.data).run b := by
  rcases sound.broker with ⟨-, idle⟩ | ⟨init, last, shape, -, topic, idle, rest⟩
  · cases busy.symm.trans (idle slot (mem_of_getElem? here))
  · rw [shape, getElem?_append] at here
    split at here
    · cases busy.symm.trans (idle slot (List.mem_of_getElem? here))
    · have bound := (List.getElem?_eq_some_iff.mp here).1
      rw [List.length_singleton] at bound
      obtain final : i = init.length := by omega
      subst final
      obtain rfl : last = slot := by simpa using here
      exact ⟨init, rfl, shape, topic, idle, rest⟩

/-- Nobody is at work while the caller waits for nobody. -/
theorem quiet (sound : Sound b rs older active lower hash s) (idle : s.idle = true) :
    s.broker = b ∧ ∀ slot ∈ s.slots, slot.phase.busy = false := by
  rcases sound.broker with quiet | ⟨init, last, shape, working, -⟩
  · exact quiet
  · have present : last ∈ s.slots := by simp [shape]
    have ended := (sound.slots last present).ended (all_eq_true.mp idle last present)
    cases working.symm.trans ended

theorem set (sound : Sound b rs older active lower hash s)
    (here : s.slots[i]? = some slot) (slot' : Slot) (topic : slot'.topic = slot.topic)
    (data : slot'.data = slot.data) (phase : slot'.phase = slot.phase) (sound' : slot'.Sound b rs) :
    Sound b rs older active lower hash { s with slots := s.slots.set i slot' } := by
  have inside : slot ∈ s.slots := mem_of_getElem? here
  refine ⟨sound.linked, sound.lodged, sound.housed,
    ⟨sound.wide.1, forall_set sound.wide.2 (by rw [data]; exact sound.wide.2 slot inside) i⟩,
    forall_set sound.slots sound' i, ?_⟩
  by_cases busy : slot.phase.busy = true
  · obtain ⟨init, rfl, shape, current, idle, rest⟩ := sound.last here busy
    refine .inr ⟨init, slot', by simp [shape], by rw [phase]; exact busy, topic.trans current, idle, ?_⟩
    rw [topic, data, phase]
    exact rest
  · rcases sound.broker with ⟨same, idle⟩ | ⟨init, last, shape, working, current, idle, rest⟩
    · exact .inl ⟨same, forall_set idle (by rw [phase]; exact idle slot inside) i⟩
    · right
      rw [shape] at here ⊢
      rw [getElem?_append] at here
      split at here
      · rename_i place
        exact ⟨init.set i slot', last, by rw [set_append, if_pos place], working, current,
          forall_set idle (by rw [phase]; exact idle slot (List.mem_of_getElem? here)) i, rest⟩
      · obtain rfl := mem_singleton.mp (List.mem_of_getElem? here)
        exact absurd working busy

theorem work {broker : Broker}
    (sound : Sound b rs older active lower hash s) (here : s.slots[i]? = some slot)
    (busy : slot.phase.busy = true)
    (advanced : (advance lower hash s.topic (s.p slot) slot.phase).run s.broker = .ok phase broker) :
    Sound b rs older active lower hash
      { s with broker, slots := s.slots.set i { slot with phase } } := by
  have inside : slot ∈ s.slots := mem_of_getElem? here
  obtain ⟨init, rfl, shape, topic, idle, rest⟩ := sound.last here busy
  rw [← topic, Serving.p_last shape] at advanced
  have still : phase.busy = true := advance_busy busy advanced
  rw [complete_eq slot.topic slot.data, bind_ok advanced] at rest
  have sound' := sound.slots slot inside
  have waiting (returned : slot.returned = true) : False := by
    cases busy.symm.trans (sound'.ended returned)
  have fresh : ({ slot with phase } : Slot).Sound b rs := by
    refine ⟨sound'.partition, fun offset ends => ?_, fun code offset ends => ?_,
      fun returned => (waiting returned).elim, fun returned => (waiting returned).elim⟩
    · rw [show phase = _ from ends] at still
      cases still
    · rw [show phase = _ from ends] at still
      cases still
  exact ⟨sound.linked, sound.lodged, sound.housed,
    ⟨sound.wide.1, forall_set (x := { slot with phase }) sound.wide.2 (sound.wide.2 slot inside) _⟩,
    forall_set sound.slots fresh _, .inr ⟨init, { slot with phase }, by simp [shape], still, topic,
      idle, rest⟩⟩

/-- The function returns: it has refused the record set, or appended it. -/
theorem report {code : ErrorCode} {offset : Option Int}
    (sound : Sound b rs older active lower hash s) (here : s.slots[i]? = some slot)
    (done : slot.phase = .done code offset) (now : Int) :
    ∃ b' rs' older' active', Sound b' rs' older' active' lower hash
      { s with slots := s.slots.set i { slot with
        phase := .ended code offset
        res := recordProduced now (s.p slot).partition (code, offset) slot.res } } := by
  have inside : slot ∈ s.slots := mem_of_getElem? here
  obtain ⟨init, rfl, shape, -, idle, rest⟩ := sound.last here (by rw [done]; rfl)
  rw [done] at rest
  have returned : (produce lower hash slot.topic slot.data).run b = .ok (code, offset) s.broker :=
    rest.symm
  rw [Serving.p_last shape, shape, set_append_right _ _ le_rfl, Nat.sub_self, set_cons_zero]
  have before {P : Slot → Prop} (all : ∀ other ∈ s.slots, P other) : ∀ other ∈ init, P other :=
    (forall_mem_append.mp (shape ▸ all)).1
  have each {P : Slot → Prop} {last : Slot} (old : ∀ other ∈ init, P other) (new : P last) :
      ∀ other ∈ init ++ [last], P other :=
    forall_mem_append.mpr ⟨old, forall_mem_singleton.mpr new⟩
  have sound' := sound.slots slot inside
  rcases sound.housed.produce sound.linked sound.lodged hash slot.topic slot.data
      (sound.wide.2 slot inside) with
    ⟨code', failed, refused⟩ | ⟨replica, n, log, disk, segs, log', older', active', found, taken, there,
      appended, -, housed, -⟩
  · rw [refused] at returned
    cases returned
    exact ⟨s.broker, rs, older, active, sound.linked, sound.lodged, sound.housed,
      ⟨sound.wide.1, each (before sound.wide.2) (sound.wide.2 slot inside)⟩,
      each (before sound.slots) (sound'.report done now fun fine => absurd fine failed),
      .inl ⟨rfl, each idle rfl⟩⟩
  · rw [appended] at returned
    obtain ⟨ends, same⟩ := Result.ok.inj returned
    cases ends
    refine ⟨s.broker, _, older', active', ?_, ?_, same ▸ housed,
      ⟨sound.wide.1, each (before sound.wide.2) (sound.wide.2 slot inside)⟩,
      each (fun other old => (before sound.slots other old).grow s.broker ?_ ?_ n _)
        (sound'.report done now fun _ => ?_), .inl ⟨rfl, each idle rfl⟩⟩
    · rw [← same]
      exact ⟨sound.linked.listed, sound.linked.filled, sound.linked.held, sound.linked.leading⟩
    · rw [← same]
      intro held present m kept
      rw [length_set]
      exact sound.lodged held present m kept
    · rw [← same]
    · rw [← same]
    · refine ⟨(rs n).length, replica, n, rfl, ?_, taken, ?_⟩
      · rw [← same]
        exact found
      · rw [Function.update_self, getElem?_concat_length]

theorem next {td : TopicData} {todo : List TopicData} (sound : Sound b rs older active lower hash s)
    (past : s.rest = []) (next : s.todo = td :: todo) (idle : s.idle = true) :
    Sound b rs older active lower hash
      { s with todo, loop := s.loop + 1, topic := td.topic, rest := td.data } :=
  ⟨sound.linked, sound.lodged, sound.housed,
    ⟨by rw [Serving.ahead_next past next]; exact sound.wide.1, sound.wide.2⟩, sound.slots,
    .inl (sound.quiet idle)⟩

theorem call {rest : List Data} (positive : 0 < timeout)
    (sound : Sound b rs older active lower hash s) (next : s.rest = data :: rest)
    (idle : s.idle = true) :
    Sound b rs older active lower hash
      { s with rest, slots := s.slots ++ [Slot.begin timeout s.loop s.topic data] } := by
  have fields : (Slot.begin timeout s.loop s.topic data).topic = s.topic ∧
      (Slot.begin timeout s.loop s.topic data).data = data ∧
      (Slot.begin timeout s.loop s.topic data).phase = .begin := by
    unfold Slot.begin
    split <;> exact ⟨rfl, rfl, rfl⟩
  have ahead : s.ahead = (s.topic, data) :: Serving.ahead { s with rest } := by
    unfold Serving.ahead
    rw [next]
    rfl
  have wide := forall_mem_cons.mp (ahead ▸ sound.wide.1)
  obtain ⟨same, quiet⟩ := sound.quiet idle
  refine ⟨sound.linked, sound.lodged, sound.housed, ⟨wide.2,
      forall_mem_append.mpr ⟨sound.wide.2, forall_mem_singleton.mpr (by rw [fields.2.1]; exact wide.1)⟩⟩,
    forall_mem_append.mpr ⟨sound.slots,
      forall_mem_singleton.mpr (Slot.Sound.begin positive s.loop s.topic data)⟩,
    .inr ⟨s.slots, _, rfl, by rw [fields.2.2]; rfl, fields.1, quiet, ?_⟩⟩
  rw [fields.1, fields.2.1, fields.2.2, same]
  rfl

theorem step {m : Move} (positive : 0 < timeout) (sound : Sound b rs older active lower hash s)
    (taken : s.step lower hash timeout m = some s') (patient : s.early m = false) :
    ∃ b' rs' older' active', Sound b' rs' older' active' lower hash s' := by
  cases m with
  | next =>
    obtain ⟨td, todo, past, next, idle, rfl⟩ := next_cases taken
    exact ⟨b, rs, older, active, sound.next past next idle⟩
  | call =>
    obtain ⟨data, rest, next, idle, rfl⟩ := call_cases taken
    exact ⟨b, rs, older, active, sound.call positive next idle⟩
  | work i =>
    obtain ⟨slot, phase, broker, here, busy, advanced, rfl⟩ := work_cases taken
    exact ⟨b, rs, older, active, sound.work here busy advanced⟩
  | report i now =>
    obtain ⟨slot, slot', here, stepped, rfl⟩ := alter_cases taken
    obtain ⟨code, offset, done, rfl⟩ := Slot.report_cases stepped
    exact sound.report here done now
  | receive i =>
    obtain ⟨slot, slot', here, stepped, rfl⟩ := alter_cases taken
    obtain ⟨code, offset, ended, rfl⟩ := Slot.receive_cases stepped
    have sound' := (sound.slots slot (mem_of_getElem? here)).told code
      (by rw [ended]; rfl) fun fine => ⟨offset, fine ▸ ended⟩
    exact ⟨b, rs, older, active, sound.set here _ rfl rfl rfl sound'⟩
  | expire i =>
    obtain ⟨slot, slot', here, stepped, rfl⟩ := alter_cases taken
    obtain rfl := Slot.expire_cases stepped
    have ended : slot.phase.busy = false := by simpa [early, here] using patient
    exact ⟨b, rs, older, active, sound.set here _ rfl rfl rfl
      ((sound.slots slot (mem_of_getElem? here)).told _ ended nofun)⟩

theorem run {ms : List Move} (positive : 0 < timeout) (sound : Sound b rs older active lower hash s)
    (ran : s.run lower hash timeout ms = some s') (patient : Patient lower hash timeout ms s = true) :
    ∃ b' rs' older' active', Sound b' rs' older' active' lower hash s' := by
  induction ms generalizing s b rs older active with
  | nil =>
    cases ran
    exact ⟨b, rs, older, active, sound⟩
  | cons m ms ih =>
    obtain ⟨s₁, taken, rest⟩ := Option.bind_eq_some_iff.mp ran
    simp only [Patient, taken, Bool.and_eq_true, Bool.not_eq_true', Option.all_some] at patient
    obtain ⟨b', rs', older', active', sound'⟩ := sound.step positive taken patient.1
    exact ih sound' rest patient.2

end Serving.Sound

theorem Slot.Sound.acknowledged {older : Nat → List View}
    {active : Nat → View} (sound : slot.Sound b rs) (housed : Housed b rs older active)
    (lodged : ∀ replica ∈ b.replicas, ∀ n, replica.log = some n → n < b.logs.length)
    (returned : slot.returned = true) : Acknowledged b slot.topic slot.data slot.res := by
  refine ⟨sound.partition, fun fine => ?_⟩
  obtain ⟨offset, ended⟩ := sound.fine returned fine
  have booked := sound.booked offset ended
  obtain ⟨o, replica, n, rfl, -⟩ := id booked
  rw [sound.recorded .none o ended]
  exact booked.holds housed lodged

theorem Serving.sound_start {b : Broker} {req : ProduceRequest} (ready : Ready b)
    (wide : ∀ td ∈ req.topicData, ∀ data ∈ td.data, 12 ≤ (data.recordSet.getD []).length) :
    ∃ rs older active, Sound b rs older active lower hash (start b req) := by
  obtain ⟨rs, older, active, housed⟩ := ready.housed
  refine ⟨rs, older, active, ready.linked, ready.lodged, housed, ⟨fun e present => ?_, by simp [start]⟩,
    by simp [start], .inl ⟨rfl, by simp [start]⟩⟩
  obtain ⟨td, inside, here⟩ := mem_flatMap.mp (show e ∈ entries req.topicData from present)
  obtain ⟨data, member, rfl⟩ := mem_map.mp here
  exact wide td inside data member

/-- `handleProduce` in every order of the steps of its caller, its goroutines and its timers: the
response has one entry for every partition of the request, topic by topic; and if the timeout is
positive and no caller returns before the goroutine that it has started is done, the entries have
the partitions of the request, and one without an error says where the partition's log has the
record set. -/
theorem handleProduce_acknowledged {req : ProduceRequest} {b : Broker} {ms : List Move} {s : Serving}
    (ran : (Serving.start b req).run lower hash req.timeout ms = some s) (finished : s.Finished) :
    Answers (fun _ _ _ => True) req (s.response req) ∧
    (Ready b → (∀ td ∈ req.topicData, ∀ data ∈ td.data, 12 ≤ (data.recordSet.getD []).length) →
      0 < req.timeout → Serving.Patient lower hash req.timeout ms (Serving.start b req) = true →
      Answers (Acknowledged s.broker) req (s.response req)) := by
  have order : s.slots.map (fun slot => (slot.topic, slot.data)) = entries req.topicData := by
    have start : Serving.Ordered req (Serving.start b req) := by
      unfold Serving.Ordered
      rfl
    rw [← start.run ran, Serving.ahead, finished.1, finished.2.1]
    exact (append_nil _).symm
  have answers {P : Str → Data → ProducePartitionResponse → Prop}
      (each : ∀ slot ∈ s.slots, P slot.topic slot.data slot.res) : Answers P req (s.response req) := by
    refine forall₂_regroup ?_
    rw [← order, forall₂_map_left_iff, forall₂_map_right_iff, forall₂_same]
    exact each
  refine ⟨answers fun _ _ => trivial, fun ready wide positive patient => ?_⟩
  obtain ⟨rs, older, active, start⟩ := @Serving.sound_start lower hash b req ready wide
  obtain ⟨b', rs', older', active', sound⟩ := start.run positive ran patient
  rw [(sound.quiet finished.2.2).1]
  exact answers fun slot present => (sound.slots slot present).acknowledged sound.housed sound.lodged
    (all_eq_true.mp finished.2.2 slot present)

/-- A broker that leads the partition 0 of `t`. -/
def leadingBroker : Broker :=
  ((handleLeaderAndISR id (elects 1).req).run replicating).state

theorem leadingBroker_ready : Ready leadingBroker := by
  have fresh : Fresh replicating := ⟨rfl, rfl, rfl, rfl, rfl, fun _ => rfl⟩
  have policy : DefaultPolicy id replicating.cluster.fsm (ascii "t") := by
    have row : ((replicating.cluster.fsm.getTopic id (ascii "t")).2.map fun row =>
        getValue row.val.config (ascii "cleanup.policy")) = some (some (.string (ascii "delete"))) := by
      decide +kernel
    intro topic here
    rw [here] at row
    exact Option.some.inj row
  obtain ⟨rs, older, active, tenants⟩ := fresh.tenants.handleStates (elects 1).req.partitionStates
    (by simpa [elects] using policy) (by decide) fun _ _ _ _ _ tenant => nomatch tenant.here
  have tenants' : Tenants leadingBroker (fun _ _ => []) rs older active := by
    unfold leadingBroker handleLeaderAndISR
    rw [bind_state fun _ _ => rfl]
    exact tenants
  refine ⟨tenants'.linked, fun replica inside n taken => ?_, rs, older, active, tenants'.housed⟩
  obtain ⟨r, here⟩ := mem_iff_getElem?.mp inside
  obtain ⟨log, there, -⟩ := tenants'.holds r replica n ⟨here, taken⟩
  exact (List.getElem?_eq_some_iff.mp there).1

/-- A record set for the partition 0 of `t`. -/
def produceOne (timeout : Int) : ProduceRequest :=
  ⟨0, none, 1, timeout, [⟨ascii "t", [⟨0, some (plainSet [7])⟩]⟩]⟩

/-- The goroutine is done in time, and its caller gets its result. -/
def inTime : List Move :=
  [.next, .call, .work 0, .work 0, .work 0, .work 0, .work 0, .work 0, .work 0, .report 0 7,
    .receive 0]

theorem handleProduce_acknowledged_one :
    ∃ s, (Serving.start leadingBroker (produceOne 9)).run id (fun _ => 0) 9 inTime = some s ∧
      (s.response (produceOne 9)).responses = [⟨ascii "t", [⟨0, ErrorCode.none.code, 0, 7, 0⟩]⟩] ∧
      Answers (Acknowledged s.broker) (produceOne 9) (s.response (produceOne 9)) := by
  have ends : ((Serving.start leadingBroker (produceOne 9)).run id (fun _ => 0) 9
      inTime).map (fun s =>
        (s.todo.length, s.rest.length, s.idle, (s.response (produceOne 9)).responses)) =
        some (0, 0, true, [⟨ascii "t", [⟨0, ErrorCode.none.code, 0, 7, 0⟩]⟩]) := by
    decide +kernel
  obtain ⟨s, ran, same⟩ := Option.map_eq_some_iff.mp ends
  simp only [Prod.mk.injEq] at same
  obtain ⟨todo, rest, idle, responses⟩ := same
  have patient : Serving.Patient id (fun _ => 0) 9 inTime
      (Serving.start leadingBroker (produceOne 9)) = true := by
    decide +kernel
  have wide : ∀ td ∈ (produceOne 9).topicData, ∀ data ∈ td.data,
      12 ≤ (data.recordSet.getD []).length := by
    decide
  have past : s.Finished := ⟨length_eq_zero_iff.mp todo, length_eq_zero_iff.mp rest, idle⟩
  exact ⟨s, ran, responses, (handleProduce_acknowledged ran past).2 leadingBroker_ready wide
    (by decide) patient⟩

theorem Holds.file {partition : Int32} {offset : Int} {p : Bytes}
    (holds : Holds b topic partition offset p) : ∃ log ∈ b.logs, ∃ content ∈ (b.world log).contents,
      (MessageSet.stamp offset p).length ≤ content.length := by
  obtain ⟨replica, n, log, r, s, base, recs, -, -, there, listed, object, stores, j, -, record⟩ := holds
  refine ⟨log, mem_of_getElem? there, recs.flatten, mem_map.mpr ⟨r, listed, ?_⟩,
    Sublist.length_le (sublist_flatten_of_mem (mem_of_getElem? record))⟩
  have object' : (b.world log).segs[r]? = some s := object
  rw [World.content, object']
  exact stores.file

/-- With no timeout the response is there before anything is stored. -/
theorem unawaited_produce :
    ∃ s, (Serving.start leadingBroker (produceOne 0)).run id (fun _ => 0) 0
        [.next, .call] = some s ∧ s.Finished ∧
      (s.response (produceOne 0)).responses = [⟨ascii "t", [⟨0, ErrorCode.none.code, 0, zeroTime, 0⟩]⟩] ∧
      ¬ Holds s.broker (ascii "t") 0 0 (plainSet [7]) := by
  refine ⟨_, rfl, ⟨rfl, rfl, rfl⟩, by decide +kernel, fun holds => ?_⟩
  have empty : ∀ log ∈ leadingBroker.logs, ∀ content ∈ (leadingBroker.world log).contents,
      content.length < (MessageSet.stamp 0 (plainSet [7])).length := by
    decide +kernel
  obtain ⟨log, here, content, file, long⟩ := holds.file
  exact Nat.not_le.mpr (empty log here content file) long

end Jocko.Broker
