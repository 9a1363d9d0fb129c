import Jocko.Go.Chan
import Jocko.Protocol.Requests

namespace Jocko.Protocol

structure Response where
  correlationID : Int32
  body : List Put

/-- `Response.Encode` -/
def Response.puts (r : Response) : List Put :=
  .push .size :: (.int32 r.correlationID :: (r.body ++ [.pop]))

end Jocko.Protocol

namespace Jocko.Broker.Serving

open Go List

/-- The `Context` of a request, on a connection of `κ`. -/
structure Context (κ ρ : Type) where
  conn : κ
  header : Protocol.RequestHeader
  req : ρ

/-- The `Context` of a response, whose parent is that of the request. -/
structure Reply (κ ρ : Type) where
  parent : Context κ ρ
  conn : κ
  header : Protocol.RequestHeader
  res : Protocol.Response

/-- What `handleResponse` made of a response. -/
inductive Fate where
  | written (b : Bytes)
  | notEncoded (cause : Err)
  | notWritten (b : Bytes)

/-- Where the goroutine of a connection is in `handleRequest`. -/
inductive Reader (κ ρ : Type) where
  | reading
  | sending (ctx : Context κ ρ)
  | closed

/-- Where `Broker.Run` is. -/
inductive Runner (κ ρ : Type) where
  | waiting
  | handling (ctx : Context κ ρ)
  | replying (reply : Reply κ ρ)
  | done

/-- The request that a reader has in its hand. -/
def Reader.held {κ ρ : Type} : Reader κ ρ → List (Context κ ρ)
  | sending ctx => [ctx]
  | _ => []

/-- The request that the broker has in its hand. -/
def Runner.held {κ ρ : Type} : Runner κ ρ → List (Context κ ρ)
  | handling ctx => [ctx]
  | replying reply => [reply.parent]
  | _ => []

/-- The response that the broker has in its hand. -/
def Runner.reply {κ ρ : Type} : Runner κ ρ → List (Reply κ ρ)
  | replying reply => [reply]
  | _ => []

/-- The bytes of a response that was written. -/
def Fate.bytes : Fate → Option Bytes
  | written b => some b
  | _ => none

/-- A response to the request of its parent, on the same connection. -/
structure Answers {κ ρ β : Type} (handle : ρ → β → Option (List Protocol.Put × β))
    (reply : Reply κ ρ) : Prop where
  conn : reply.conn = reply.parent.conn
  header : reply.header = reply.parent.header
  correlationID : reply.res.correlationID = reply.parent.header.correlationID
  body : ∃ before after, handle reply.parent.req before = some (reply.res.body, after)

/-- What became of a response is what `Encode` says. -/
def Fate.Of {κ ρ : Type} (fate : Fate) (reply : Reply κ ρ) : Prop :=
  match fate with
  | .written b => Protocol.encode reply.res.puts = .ok b
  | .notWritten b => Protocol.encode reply.res.puts = .ok b
  | .notEncoded cause => Protocol.encode reply.res.puts = .error (.err cause)

/-- The goroutines of a server and its broker, with what was read from the connections and what
became of the responses. -/
structure Server (κ ρ β : Type) where
  readers : κ → Reader κ ρ
  requestCh : Chan (Context κ ρ)
  broker : Runner κ ρ
  store : β
  responseCh : Chan (Reply κ ρ)
  writer : Option (Reply κ ρ)
  requests : List (Context κ ρ)
  responses : List (Reply κ ρ × Fate)
  wire : κ → List Bytes

namespace Server

variable {κ ρ β : Type} [DecidableEq κ]

/-- A server that was started, on connections that sent nothing. -/
def start (store : β) : Server κ ρ β where
  readers _ := .reading
  requestCh := .make 1024
  broker := .waiting
  store := store
  responseCh := .make 1024
  writer := none
  requests := []
  responses := []
  wire _ := []

/-- A step of one of the goroutines. -/
inductive Event (κ ρ : Type) where
  | read (conn : κ) (header : Protocol.RequestHeader) (req : ρ)
  | send (conn : κ)
  | close (conn : κ)
  | take
  | handle
  | reply
  | finish
  | pick
  | write (fails : Bool)

/-- What a step does, if the goroutine is there and its channel is ready. `handle` is the broker's
switch over the requests, where a handler that does not return has no result. -/
def step (handle : ρ → β → Option (List Protocol.Put × β)) (s : Server κ ρ β) :
    Event κ ρ → Option (Server κ ρ β)
  | .read conn header req =>
    match s.readers conn with
    | .reading =>
      some { s with
        readers := Function.update s.readers conn (.sending ⟨conn, header, req⟩)
        requests := s.requests ++ [⟨conn, header, req⟩] }
    | _ => none
  | .send conn =>
    match s.readers conn with
    | .sending ctx =>
      match s.requestCh.send ctx with
      | some (.ok requestCh) =>
        some { s with readers := Function.update s.readers conn .reading, requestCh }
      | _ => none
    | _ => none
  | .close conn =>
    match s.readers conn with
    | .reading => some { s with readers := Function.update s.readers conn .closed }
    | _ => none
  | .take =>
    match s.broker, s.requestCh.recv with
    | .waiting, some (ctx, requestCh) => some { s with broker := .handling ctx, requestCh }
    | _, _ => none
  | .handle =>
    match s.broker with
    | .handling ctx =>
      match handle ctx.req s.store with
      | some (body, store) =>
        some { s with
          broker := .replying ⟨ctx, ctx.conn, ctx.header, ⟨ctx.header.correlationID, body⟩⟩
          store }
      | none => none
    | _ => none
  | .reply =>
    match s.broker with
    | .replying reply =>
      match s.responseCh.send reply with
      | some (.ok responseCh) => some { s with broker := .waiting, responseCh }
      | _ => none
    | _ => none
  | .finish =>
    match s.broker with
    | .waiting => some { s with broker := .done }
    | _ => none
  | .pick =>
    match s.writer, s.responseCh.recv with
    | none, some (reply, responseCh) => some { s with writer := some reply, responseCh }
    | _, _ => none
  | .write fails =>
    match s.writer with
    | some reply =>
      match Protocol.encode reply.res.puts with
      | .ok b =>
        if fails then
          some { s with writer := none, responses := s.responses ++ [(reply, .notWritten b)] }
        else
          some { s with
            writer := none
            responses := s.responses ++ [(reply, .written b)]
            wire := Function.update s.wire reply.conn (s.wire reply.conn ++ [b]) }
      | .error (.err cause) =>
        some { s with
          writer := none, responses := s.responses ++ [(reply, .notEncoded cause)] }
      | .error _ => none
    | none => none

/-- A run of the server, in any order of the steps. -/
def run (handle : ρ → β → Option (List Protocol.Put × β)) :
    List (Event κ ρ) → Server κ ρ β → Option (Server κ ρ β)
  | [], s => some s
  | event :: events, s => (s.step handle event).bind (run handle events)

/-- The requests behind the readers that have not been answered, the oldest first. -/
def queued (s : Server κ ρ β) : List (Context κ ρ) :=
  s.writer.toList.map Reply.parent ++ (s.responseCh.queue.map Reply.parent ++
    (s.broker.held ++ s.requestCh.queue))

/-- The requests of a connection that are in flight. -/
def inFlight (s : Server κ ρ β) (conn : κ) : List (Context κ ρ) :=
  (s.queued ++ (s.readers conn).held).filter (·.conn = conn)

/-- The requests that were read from a connection. -/
def requestsOf (s : Server κ ρ β) (conn : κ) : List (Context κ ρ) :=
  s.requests.filter (·.conn = conn)

/-- The responses to the requests of a connection that the writer is done with. -/
def responsesTo (s : Server κ ρ β) (conn : κ) : List (Reply κ ρ × Fate) :=
  s.responses.filter (·.1.parent.conn = conn)

/-- What holds of a server after any steps. -/
structure Inv (handle : ρ → β → Option (List Protocol.Put × β)) (s : Server κ ρ β) : Prop where
  own : ∀ conn, ∀ ctx ∈ (s.readers conn).held, ctx.conn = conn
  order : ∀ conn, (s.responses.map (·.1.parent) ++ s.queued ++ (s.readers conn).held).filter
    (·.conn = conn) = s.requestsOf conn
  answers : ∀ reply ∈ s.responses.map Prod.fst ++ (s.writer.toList ++ (s.responseCh.queue ++
    s.broker.reply)), Answers handle reply
  fates : ∀ x ∈ s.responses, x.2.Of x.1
  wire : ∀ conn, s.wire conn = (s.responsesTo conn).filterMap fun x => x.2.bytes

variable {handle : ρ → β → Option (List Protocol.Put × β)} {s s' : Server κ ρ β}

theorem start_inv (store : β) : Inv handle (start store : Server κ ρ β) where
  own _ _ inside := (not_mem_nil inside).elim
  order _ := rfl
  answers _ inside := (not_mem_nil inside).elim
  fates _ inside := (not_mem_nil inside).elim
  wire _ := rfl

section

variable (inv : Inv handle s)
include inv

/-- Steps behind the readers move requests along and drop none. -/
theorem Inv.of_moved (readers : s'.readers = s.readers)
    (requests : s'.requests = s.requests) (responses : s'.responses = s.responses)
    (wire : s'.wire = s.wire) (queued : s'.queued = s.queued)
    (answers : ∀ reply ∈ s'.writer.toList ++ (s'.responseCh.queue ++ s'.broker.reply),
      Answers handle reply) : Inv handle s' where
  own := by
    rw [readers]
    exact inv.own
  order conn := by
    rw [readers, responses, queued, requestsOf, requests]
    exact inv.order conn
  answers reply inside := by
    rw [responses] at inside
    rcases mem_append.mp inside with settled | later
    · exact inv.answers reply (mem_append_left _ settled)
    · exact answers reply later
  fates := by
    rw [responses]
    exact inv.fates
  wire conn := by
    rw [wire, responsesTo, responses]
    exact inv.wire conn

theorem Inv.answering :
    ∀ reply ∈ s.writer.toList ++ (s.responseCh.queue ++ s.broker.reply), Answers handle reply :=
  fun reply inside => inv.answers reply (mem_append_right _ inside)

theorem Inv.of_reader {conn : κ} {reader : Reader κ ρ} {requestCh : Chan (Context κ ρ)}
    {requests : List (Context κ ρ)} (own : ∀ ctx ∈ reader.held, ctx.conn = conn)
    (order : (s.responses.map (·.1.parent) ++ queued { s with requestCh } ++ reader.held).filter
      (·.conn = conn) = requests.filter (·.conn = conn))
    (others : ∀ other, conn ≠ other →
      requestCh.queue.filter (·.conn = other) = s.requestCh.queue.filter (·.conn = other) ∧
      requests.filter (·.conn = other) = s.requests.filter (·.conn = other)) :
    Inv handle { s with
      readers := Function.update s.readers conn reader
      requestCh
      requests } := by
  refine ⟨fun other ctx inside => ?_, fun other => ?_, inv.answers, inv.fates, inv.wire⟩
  · by_cases same : other = conn
    · subst same
      simp only [Function.update_self] at inside
      exact own ctx inside
    · simp only [Function.update_of_ne same] at inside
      exact inv.own other ctx inside
  · by_cases same : other = conn
    · subst same
      simp only [Function.update_self]
      exact order
    · obtain ⟨waiting, read⟩ := others other (Ne.symm same)
      have before := inv.order other
      simp only [queued, requestsOf, filter_append] at before ⊢
      rw [Function.update_of_ne same, waiting, read]
      exact before

theorem read_inv {conn : κ} {header : Protocol.RequestHeader} {req : ρ}
    (stepped : s.step handle (.read conn header req) = some s') : Inv handle s' := by
  simp only [step] at stepped
  split at stepped
  · rename_i reading
    cases stepped
    refine inv.of_reader (by simp [Reader.held]) ?_ fun other differs => ⟨rfl, ?_⟩
    · have before := inv.order conn
      simp only [reading, Reader.held, append_nil] at before
      rw [filter_append _ (Reader.held _), filter_append s.requests]
      exact congrArg (· ++ _) before
    · simp [differs]
  · cases stepped

theorem send_inv {conn : κ}
    (stepped : s.step handle (.send conn) = some s') : Inv handle s' := by
  simp only [step] at stepped
  split at stepped
  · rename_i ctx sending
    split at stepped
    · rename_i requestCh sent
      cases stepped
      have owner : ctx.conn = conn := inv.own conn ctx (by
        rw [sending]
        exact mem_singleton_self ctx)
      have grown : requestCh.queue = s.requestCh.queue ++ [ctx] := by
        rw [(Chan.send_eq_ok sent).2.2]
      refine inv.of_reader (by simp [Reader.held]) ?_ fun other differs => ⟨?_, rfl⟩
      · have before := inv.order conn
        simp only [queued, sending, Reader.held, append_assoc] at before
        simp only [queued, grown, Reader.held, append_nil]
        exact before
      · simp [grown, owner, differs]
    · cases stepped
  · cases stepped

theorem close_inv {conn : κ}
    (stepped : s.step handle (.close conn) = some s') : Inv handle s' := by
  simp only [step] at stepped
  split at stepped
  · rename_i reading
    cases stepped
    refine inv.of_reader (by simp [Reader.held]) ?_ fun _ _ => ⟨rfl, rfl⟩
    have before := inv.order conn
    rw [reading] at before
    exact before
  · cases stepped

theorem take_inv (stepped : s.step handle .take = some s') :
    Inv handle s' := by
  simp only [step] at stepped
  split at stepped
  · rename_i ctx requestCh waiting received
    cases stepped
    have oldest := (Chan.recv_eq_some received).1
    refine inv.of_moved rfl rfl rfl rfl ?_ ?_
    · simp only [queued, waiting, oldest, Runner.held, nil_append, singleton_append]
    · have answering := inv.answering
      rw [waiting] at answering
      exact answering
  · cases stepped

theorem handle_inv (stepped : s.step handle .handle = some s') :
    Inv handle s' := by
  simp only [step] at stepped
  split at stepped
  · rename_i ctx handling
    split at stepped
    · rename_i body store handled
      cases stepped
      refine inv.of_moved rfl rfl rfl rfl ?_ ?_
      · simp only [queued, handling, Runner.held]
      · intro reply inside
        have answering := inv.answering
        simp only [handling, Runner.reply, append_nil] at answering
        simp only [Runner.reply] at inside
        rw [← append_assoc] at inside
        rcases mem_append.mp inside with earlier | new
        · exact answering reply earlier
        · rw [mem_singleton.mp new]
          exact ⟨rfl, rfl, rfl, s.store, store, handled⟩
    · cases stepped
  · cases stepped

theorem reply_inv (stepped : s.step handle .reply = some s') :
    Inv handle s' := by
  simp only [step] at stepped
  split at stepped
  · rename_i reply replying
    split at stepped
    · rename_i responseCh sent
      cases stepped
      have grown : responseCh.queue = s.responseCh.queue ++ [reply] := by
        rw [(Chan.send_eq_ok sent).2.2]
      refine inv.of_moved rfl rfl rfl rfl ?_ ?_
      · simp only [queued, replying, grown, Runner.held, map_append, map_cons,
          map_nil, nil_append, append_assoc]
      · have answering := inv.answering
        simp only [replying, Runner.reply] at answering
        simp only [grown, Runner.reply, append_nil]
        exact answering
    · cases stepped
  · cases stepped

theorem finish_inv (stepped : s.step handle .finish = some s') :
    Inv handle s' := by
  simp only [step] at stepped
  split at stepped
  · rename_i waiting
    cases stepped
    refine inv.of_moved rfl rfl rfl rfl ?_ ?_
    · simp only [queued, waiting, Runner.held]
    · have answering := inv.answering
      rw [waiting] at answering
      exact answering
  · cases stepped

theorem pick_inv (stepped : s.step handle .pick = some s') :
    Inv handle s' := by
  simp only [step] at stepped
  split at stepped
  · rename_i reply responseCh free received
    cases stepped
    have oldest := (Chan.recv_eq_some received).1
    refine inv.of_moved rfl rfl rfl rfl ?_ ?_
    · simp only [queued, free, oldest, Option.toList, map_cons, map_nil,
        nil_append, cons_append]
    · have answering := inv.answering
      simp only [free, oldest, Option.toList, nil_append] at answering
      exact answering
  · cases stepped

theorem Inv.settle (fate : Fate) {reply : Reply κ ρ}
    (holds : s.writer = some reply) (of : fate.Of reply) {wire : κ → List Bytes}
    (there : ∀ conn, wire conn =
      s.wire conn ++ if reply.conn = conn then fate.bytes.toList else []) :
    Inv handle { s with writer := none, responses := s.responses ++ [(reply, fate)], wire } where
  own := inv.own
  order conn := by
    have before := inv.order conn
    simp only [queued, holds, Option.toList, map_cons, map_nil] at before
    simp only [queued, Option.toList, map_nil, nil_append, map_append,
      map_cons, append_assoc]
    simp only [append_assoc] at before
    exact before
  answers other inside := by
    have before := inv.answers other
    simp only [holds, Option.toList] at before
    simp only [Option.toList, nil_append, map_append, map_cons, map_nil,
      append_assoc] at inside
    exact before inside
  fates x inside := by
    rcases mem_append.mp inside with earlier | new
    · exact inv.fates x earlier
    · rw [mem_singleton.mp new]
      exact of
  wire conn := by
    have answers := inv.answers reply (by simp [holds])
    simp only [there, inv.wire conn, responsesTo, filter_append, filterMap_append,
      answers.conn]
    by_cases same : reply.parent.conn = conn
    · simp only [same, ↓reduceIte, filter_cons, decide_true, filter_nil]
      cases fate <;> rfl
    · simp only [same, ↓reduceIte, filter_cons, decide_false, Bool.false_eq_true,
        filter_nil, filterMap_nil]

theorem write_inv {fails : Bool}
    (stepped : s.step handle (.write fails) = some s') : Inv handle s' := by
  simp only [step] at stepped
  split at stepped
  · rename_i reply holds
    split at stepped
    · rename_i b encoded
      split at stepped
      · cases stepped
        refine inv.settle (.notWritten b) holds encoded fun conn => ?_
        simp [Fate.bytes]
      · cases stepped
        refine inv.settle (.written b) holds encoded fun conn => ?_
        by_cases same : reply.conn = conn
        · subst same
          simp only [Function.update_self, ↓reduceIte, Fate.bytes, Option.toList]
        · rw [Function.update_of_ne (fun eq => same eq.symm), if_neg same, append_nil]
    · rename_i cause encoded
      cases stepped
      refine inv.settle (.notEncoded cause) holds encoded fun conn => ?_
      simp [Fate.bytes]
    · cases stepped
  · cases stepped

theorem step_inv {event : Event κ ρ}
    (stepped : s.step handle event = some s') : Inv handle s' := by
  cases event with
  | read => exact read_inv inv stepped
  | send => exact send_inv inv stepped
  | close => exact close_inv inv stepped
  | take => exact take_inv inv stepped
  | handle => exact handle_inv inv stepped
  | reply => exact reply_inv inv stepped
  | finish => exact finish_inv inv stepped
  | pick => exact pick_inv inv stepped
  | write => exact write_inv inv stepped

end

theorem run_inv {events : List (Event κ ρ)} : ∀ {s : Server κ ρ β}, Inv handle s →
    s.run handle events = some s' → Inv handle s' := by
  induction events with
  | nil =>
    intro s inv ran
    cases ran
    exact inv
  | cons event events ih =>
    intro s inv ran
    obtain ⟨next, stepped, rest⟩ := Option.bind_eq_some_iff.mp ran
    exact ih (step_inv inv stepped) rest

/-- After any steps of the readers, the broker and the writer, the requests of a connection are
those that the writer settled, in order, and then those in flight. A settled response is the
handler's answer to its request, for its connection and with its correlation ID; the connection
carries those that were encoded and written, in order. -/
theorem responses_match_requests (handle : ρ → β → Option (List Protocol.Put × β)) (store : β)
    (events : List (Event κ ρ)) (s : Server κ ρ β) (ran : (start store).run handle events = some s)
    (conn : κ) :
    (s.responsesTo conn).map (·.1.parent) ++ s.inFlight conn = s.requestsOf conn ∧
      (∀ x ∈ s.responsesTo conn, x.1.conn = conn ∧ Answers handle x.1 ∧ x.2.Of x.1) ∧
      s.wire conn = (s.responsesTo conn).filterMap fun x => x.2.bytes := by
  have inv := run_inv (start_inv store) ran
  refine ⟨?_, fun x inside => ?_, inv.wire conn⟩
  · have order := inv.order conn
    rw [append_assoc, filter_append, filter_map] at order
    exact order
  · obtain ⟨settled, owner⟩ := mem_filter.mp inside
    have answers := inv.answers x.1 (mem_append_left _ (mem_map_of_mem settled))
    exact ⟨answers.conn.trans (of_decide_eq_true owner), answers, inv.fates x settled⟩

/-- Two connections, the first of which sends a second request before it is answered. -/
def pipelined : List (Event Bool Int32) :=
  [.read false ⟨0, 3, 0, 7, []⟩ 1, .send false, .read true ⟨0, 3, 0, 7, []⟩ 2,
    .read false ⟨0, 3, 0, 8, []⟩ 3, .send true, .take, .handle, .reply, .send false, .take,
    .handle, .pick, .reply, .write false, .pick, .write false]

theorem responses_match_two_connections : ∃ s : Server Bool Int32 Nat,
    (start 0).run (fun req store => some ([.int32 req], store + 1)) pipelined = some s ∧
    s.wire false = [[0, 0, 0, 8, 0, 0, 0, 7, 0, 0, 0, 1]] ∧
    s.wire true = [[0, 0, 0, 8, 0, 0, 0, 7, 0, 0, 0, 2]] ∧
    (s.responsesTo false).map (·.1.parent) ++ s.inFlight false = s.requestsOf false := by
  obtain ⟨s, ran, wires⟩ : ∃ s : Server Bool Int32 Nat,
      (start 0).run (fun req store => some ([.int32 req], store + 1)) pipelined = some s ∧
      s.wire false = [[0, 0, 0, 8, 0, 0, 0, 7, 0, 0, 0, 1]] ∧
      s.wire true = [[0, 0, 0, 8, 0, 0, 0, 7, 0, 0, 0, 2]] := ⟨_, rfl, rfl, rfl⟩
  exact ⟨s, ran, wires.1, wires.2, (responses_match_requests _ 0 pipelined s ran false).1⟩

end Server

end Jocko.Broker.Serving
