import Jocko.Go.Conn
import Jocko.Protocol.Requests

namespace Jocko.Broker

open Go Protocol Protocol.ByteDecoder List

/-- A request as the loop of `handleRequest` finds it: the header, and the decoder behind it. -/
structure Received where
  header : RequestHeader
  d : ByteDecoder

/-- A connection, and the requests whose headers were read off it. -/
structure Reading where
  conn : Chunks
  requests : List Received

/-- `io.ReadFull(conn, ..)` -/
def readConn (n : Nat) : Call Reading Bytes :=
  zoom Reading.conn (fun reading conn => { reading with conn }) (readFull n)

def receive (received : Received) : Call Reading Unit := ⟨fun reading =>
  .ok () { reading with requests := reading.requests ++ [received] }⟩

theorem receive_run (received : Received) (reading : Reading) : (receive received).run reading =
    .ok () { reading with requests := reading.requests ++ [received] } := rfl

/-- One round of the loop of `Server.handleRequest`, and whether there is another one. `serve` is
what becomes of the request: `Decode` of its body, and the send on `requestCh`. -/
def readRequest (serve : Received → Except Stop Unit) : Call Reading Bool := do
  match ← attempt (readConn 4) with
  | .error _ => return false
  | .ok p =>
    let size := getUint p
    if size = 0 then return false
    else
      -- `make([]byte, size+4)` with a `uint32`
      let length := (size + 4) % 2 ^ 32
      if length < 4 then stop (.panic "slice bounds out of range")
      else
        match ← attempt (readConn (length - 4)) with
        | .error _ => stop (.panic "failed to read from connection")
        | .ok body =>
          match RequestHeader.decode.run (newDecoder (p ++ body)) with
          | .error (.err _) _ => stop (.panic "failed to decode header")
          | .error why _ => stop why
          | .ok header d =>
            receive ⟨header, d⟩
            match serve ⟨header, d⟩ with
            | .ok _ => return true
            | .error why => stop why

/-- The loop, as long as there are rounds left. -/
def readRequests (serve : Received → Except Stop Unit) : Nat → Call Reading Unit
  | 0 => stop .diverge
  | n + 1 => do
    if ← readRequest serve then readRequests serve n else return ()

/-- `Server.handleRequest`. Every round takes bytes off the connection, so there are no more rounds
than bytes. -/
def handleRequest (serve : Received → Except Stop Unit) : Call Reading Unit := ⟨fun reading =>
  (readRequests serve (reading.conn.flatten.length + 1)).run reading⟩

section Rounds

variable {serve : Received → Except Stop Unit} {reading reading' : Reading} {p rest : Bytes}

theorem readConn_of_flatten {n : Nat} (length : p.length = n)
    (all : reading.conn.flatten = p ++ rest) :
    ∃ left, (readConn n).run reading = .ok p { reading with conn := left } ∧
      left.flatten = rest := by
  obtain ⟨left, ran, remains⟩ := readFull_of_flatten length all
  exact ⟨left, zoom_ok ran, remains⟩

end Rounds

/-- The request that was sent is the one that was received. -/
structure Received.Of (r : Protocol.Request) (received : Received) : Prop where
  apiKey : received.header.apiKey = r.key
  apiVersion : received.header.apiVersion = r.version
  correlationID : received.header.correlationID = r.correlationID
  clientID : received.header.clientID = r.clientID
  body : ∃ p, encode r.body = .ok p ∧ received.d.Rest p

section Frames

theorem readRequest_frame {r : Protocol.Request} {b : Bytes} (encoded : encode r.puts = .ok b)
    (nested : Nested r.body) (small : b.length < 2 ^ 31) :
    ∃ received, Received.Of r received ∧
      ∀ (serve : Received → Except Stop Unit) (reading : Reading) (rest : Bytes),
        reading.conn.flatten = b ++ rest → ∃ left, left.flatten = rest ∧
          (readRequest serve).run reading = match serve received with
            | .ok _ => .ok true ⟨left, reading.requests ++ [received]⟩
            | .error why => .error why ⟨left, reading.requests ++ [received]⟩ := by
  obtain ⟨p, body, short, rfl⟩ := Protocol.Request.encode_eq encoded nested
  rw [length_append, length_putUint] at small
  obtain ⟨d, decoded, remains⟩ := RequestHeader.reads short (by omega)
    (newDecoder (putUint 4 ((r.content p).length % 2 ^ 32) ++ r.content p)) (rest_newDecoder _)
  refine ⟨⟨⟨Int32.ofNat (r.content p).length, r.key, r.version, r.correlationID, r.clientID⟩, d⟩,
    ⟨rfl, rfl, rfl, rfl, p, body, remains⟩, ?_⟩
  intro serve reading rest all
  have positive : 0 < (r.content p).length := by
    have key : (Put.int16 r.key).raw.length = 2 := length_putUint ..
    rw [Protocol.Request.content, length_append]
    omega
  have size : getUint (putUint 4 ((r.content p).length % 2 ^ 32)) = (r.content p).length := by
    rw [getUint_putUint]
    omega
  rw [append_assoc] at all
  obtain ⟨left₁, read₁, rest₁⟩ := readConn_of_flatten (length_putUint ..) all
  obtain ⟨left₂, read₂, rest₂⟩ := @readConn_of_flatten { reading with conn := left₁ } _ _ _
    (show (r.content p).length = ((r.content p).length + 4) % 2 ^ 32 - 4 by omega) rest₁
  refine ⟨left₂, rest₂, ?_⟩
  unfold readRequest
  rw [bind_ok (attempt_ok read₁)]
  dsimp only
  rw [size, if_neg (by omega), if_neg (by omega), bind_ok (attempt_ok read₂)]
  dsimp only
  rw [decoded]
  dsimp only
  rw [bind_ok (receive_run ..)]
  split
  · rfl
  · rfl

theorem readRequest_end {serve : Received → Except Stop Unit} {reading : Reading}
    (none : reading.conn.flatten = []) :
    (readRequest serve).run reading = .ok false ⟨[], reading.requests⟩ := by
  have ended : (readConn 4).run reading = .error (.err .eof) ⟨[], reading.requests⟩ :=
    zoom_error (readFull_end none 3)
  unfold readRequest
  rw [bind_ok (attempt_err ended)]
  rfl

/-- The rounds of the loop over a sequence of requests: one for each, as far as `serve` lets it
go. -/
theorem readRequests_frames {reqs : List Protocol.Request} {frames : List Bytes}
    (encoded : List.Forall₂ (fun r b => encode r.puts = .ok b) reqs frames)
    (nested : ∀ r ∈ reqs, Nested r.body) (small : ∀ b ∈ frames, b.length < 2 ^ 31) :
    ∃ received, List.Forall₂ Received.Of reqs received ∧
      ∀ (serve : Received → Except Stop Unit) (reading : Reading) (n : Nat),
        reading.conn.flatten = frames.flatten → frames.length < n →
          ((readRequests serve n).run reading).state.requests <+: reading.requests ++ received ∧
          ((∀ x ∈ received, serve x = .ok ()) →
            (readRequests serve n).run reading = .ok () ⟨[], reading.requests ++ received⟩) := by
  induction encoded with
  | nil =>
    refine ⟨[], .nil, fun serve reading n none rounds => ?_⟩
    obtain ⟨n, rfl⟩ := Nat.exists_eq_succ_of_ne_zero (Nat.ne_of_gt rounds)
    have ended : (readRequests serve (n + 1)).run reading = .ok () ⟨[], reading.requests⟩ := by
      rw [readRequests, bind_ok (readRequest_end none)]
      rfl
    rw [Nat.succ_eq_add_one, ended, append_nil]
    exact ⟨prefix_rfl, fun _ => rfl⟩
  | @cons r b reqs frames encoded _ ih =>
    obtain ⟨first, recovered, round⟩ := readRequest_frame encoded
      (nested r (mem_cons_self ..)) (small b (mem_cons_self ..))
    obtain ⟨others, related, rounds⟩ := ih
      (fun r inside => nested r (mem_cons_of_mem _ inside))
      (fun b inside => small b (mem_cons_of_mem _ inside))
    refine ⟨first :: others, .cons recovered related, fun serve reading n all more => ?_⟩
    obtain ⟨n, rfl⟩ := Nat.exists_eq_succ_of_ne_zero (Nat.ne_of_gt (Nat.zero_lt_of_lt more))
    rw [flatten_cons] at all
    rw [length_cons] at more
    obtain ⟨left, rest, ran⟩ := round serve reading frames.flatten all
    rw [Nat.succ_eq_add_one, readRequests, append_cons]
    cases served : serve first with
    | error why =>
      rw [served] at ran
      rw [bind_error ran]
      refine ⟨prefix_append _ _, fun accepted => ?_⟩
      rw [accepted first (mem_cons_self ..)] at served
      cases served
    | ok _ =>
      rw [served] at ran
      rw [bind_ok ran, if_pos rfl]
      obtain ⟨seen, whole⟩ := rounds serve ⟨left, reading.requests ++ [first]⟩ n rest (by omega)
      exact ⟨seen, fun accepted => whole fun x inside =>
        accepted x (mem_cons_of_mem _ inside)⟩

theorem length_le_flatten {frames : List Bytes} (filled : ∀ b ∈ frames, b ≠ []) :
    frames.length ≤ frames.flatten.length := by
  induction frames with
  | nil => exact Nat.le_refl _
  | cons b frames ih =>
    have first := length_pos_iff.mpr (filled b (mem_cons_self ..))
    have rest := ih fun b inside => filled b (mem_cons_of_mem _ inside)
    rw [flatten_cons, length_append, length_cons]
    omega

/-- Requests survive framing, however the connection cuts their bytes: the loop finds each of them
with its header and the decoder at its body, in order, as far as `serve` lets it go. -/
theorem requests_survive_framing {reqs : List Protocol.Request} {frames : List Bytes}
    {conn : Chunks}
    (encoded : List.Forall₂ (fun r b => encode r.puts = .ok b) reqs frames)
    (nested : ∀ r ∈ reqs, Nested r.body) (small : ∀ b ∈ frames, b.length < 2 ^ 31)
    (sent : conn.flatten = frames.flatten) :
    ∃ received, List.Forall₂ Received.Of reqs received ∧ ∀ serve : Received → Except Stop Unit,
      ((handleRequest serve).run ⟨conn, []⟩).state.requests <+: received ∧
      ((∀ x ∈ received, serve x = .ok ()) →
        (handleRequest serve).run ⟨conn, []⟩ = .ok () ⟨[], received⟩) := by
  obtain ⟨received, related, rounds⟩ := readRequests_frames encoded nested small
  refine ⟨received, related, fun serve => ?_⟩
  have filled : ∀ b ∈ frames, b ≠ [] := by
    intro b inside empty
    obtain ⟨r, among, encoded⟩ := related_of_mem encoded inside
    obtain ⟨p, -, -, bytes⟩ := Protocol.Request.encode_eq encoded (nested r among)
    have length := congrArg length bytes
    rw [empty, length_append, length_putUint, length_nil] at length
    omega
  have enough := length_le_flatten filled
  exact rounds serve ⟨conn, []⟩ (conn.flatten.length + 1) sent (by rw [sent]; omega)

/-- Two requests, cut inside the size, inside the header and inside the next size. -/
theorem requests_survive_framing_cut :
    let reqs : List Protocol.Request :=
      [⟨7, [99], 18, 0, []⟩, ⟨8, [], 3, 1, [.stringArray [[116]]]⟩]
    let conn : Chunks := [[0, 0], [0, 11, 0], [18, 0, 0, 0, 0, 0, 7, 0, 1, 99, 0, 0, 0],
      [17, 0, 3, 0, 1, 0, 0, 0, 8, 0, 0, 0, 0, 0, 1, 0, 1, 116]]
    ∃ received, Forall₂ Received.Of reqs received ∧
      (handleRequest fun _ => .ok ()).run ⟨conn, []⟩ = .ok () ⟨[], received⟩ := by
  intro reqs conn
  have nested : ∀ r ∈ reqs, Nested r.body := by
    simp only [reqs, mem_cons, not_mem_nil, or_false, forall_eq_or_imp, forall_eq]
    exact ⟨.nil, .plain trivial .nil⟩
  have encoded : Forall₂ (fun r b => encode r.puts = .ok b) reqs
      [[0, 0, 0, 11, 0, 18, 0, 0, 0, 0, 0, 7, 0, 1, 99],
        [0, 0, 0, 17, 0, 3, 0, 1, 0, 0, 0, 8, 0, 0, 0, 0, 0, 1, 0, 1, 116]] :=
    .cons rfl (.cons rfl .nil)
  obtain ⟨received, related, reads⟩ :=
    @requests_survive_framing reqs _ conn encoded nested (by decide) rfl
  exact ⟨received, related, (reads fun _ => .ok ()).2 fun _ _ => rfl⟩

/-- A body that leaves a `Push` open: its size is filled in where the size of the request belongs,
and the server finds a request of size 0. -/
theorem open_push_not_received :
    encode [.push .size] = .ok [0, 0, 0, 0] ∧
    encode (Protocol.Request.puts ⟨7, [99], 18, 0, [.push .size]⟩) =
      .ok [0, 0, 0, 0, 0, 18, 0, 0, 0, 0, 0, 7, 0, 1, 99, 0, 0, 0, 0] ∧
    ((handleRequest fun _ => .ok ()).run
      ⟨[[0, 0, 0, 0, 0, 18, 0, 0, 0, 0, 0, 7, 0, 1, 99, 0, 0, 0, 0]], []⟩).state.requests = [] :=
  ⟨rfl, rfl, rfl⟩

end Frames

end Jocko.Broker
