import Jocko.Broker.Server
import Jocko.Go.Bufio

namespace Jocko.Broker.Client

open Go Protocol List

/-- The fields of `Conn` that its calls use. `rlocked` says that `rlock` is held, `closed` that
`conn` was closed, `sent` what was written to it, and `broken` that it takes no more bytes. -/
structure Conn where
  clientID : Str
  correlationID : Int32
  rbuf : BufReader
  rlocked : Bool
  closed : Bool
  sent : Bytes
  broken : Bool

/-- `NewConn` -/
def newConn (conn : Chunks) (last : Err) (broken : Bool) (clientID : Str) : Conn :=
  { clientID, correlationID := 0, rbuf := newReader conn last, rlocked := false, closed := false,
    sent := [], broken }

/-- `c.conn.Close()`: what is in the buffers stays there, and nothing more comes or goes. -/
def close : Call Conn Unit := ⟨fun c =>
  .ok () { c with closed := true, broken := true,
                  rbuf := { c.rbuf with conn := [], last := .closed } }⟩

/-- `c.rlock.Lock()`, which does not return while the lock is held. -/
def lock : Call Conn Unit := ⟨fun c =>
  if c.rlocked then .error .diverge c else .ok () { c with rlocked := true }⟩

/-- `c.rlock.Unlock()` -/
def unlock : Call Conn Unit := ⟨fun c => .ok () { c with rlocked := false }⟩

/-- A call of `c.rbuf`. -/
def onReader {α : Type} (call : Call BufReader α) : Call Conn α :=
  zoom Conn.rbuf (fun c rbuf => { c with rbuf }) call

/-- `protocol.MakeInt32` -/
def makeInt32 (b : Bytes) : Int32 := Int32.ofNat (getUint b)

/-- The size and the correlation id in front of a response; an error of `Peek` is not returned. -/
def peekResponseSizeAndID : Call Conn (Int32 × Int32) := do
  match ← attempt (onReader (BufReader.peek 8)) with
  | .error _ => return (0, 0)
  | .ok b => return (makeInt32 (b.take 4), makeInt32 (b.drop 4))

/-- The result of `Discard` is not looked at. -/
def skipResponseSizeAndID : Call Conn Unit := do
  let _ ← attempt (onReader (BufReader.discard 8))
  return ()

/-- The loop of `waitResponse`, for so many rounds. It returns with the lock held. -/
def waitResponse (id : Int32) : Nat → Call Conn Int
  | 0 => stop .diverge
  | rounds + 1 => do
    lock
    match ← attempt peekResponseSizeAndID with
    | .error cause =>
      close
      unlock
      fail cause
    | .ok (rsz, rid) =>
      if id = rid then
        skipResponseSizeAndID
        return (rsz - 4).toInt
      else
        unlock
        waitResponse id rounds

/-- `readResponse`, where `decode` is what `protocol.Decode` does with the bytes. -/
def readResponse {α : Type} (decode : Bytes → Except Stop α) (size : Int) : Call Conn α := do
  let b ← onReader (BufReader.peek size)
  let decoded ← attempt (lift (decode b))
  let _ ← attempt (onReader (BufReader.discard size))
  match decoded with
  | .ok resp => return resp
  | .error cause => fail cause

/-- A request, whose `Encode` closes every `Push`, and what is made of its response. -/
structure Operation (α : Type) where
  key : Int16
  version : Int16
  body : List Put
  nested : Nested body
  decode : Bytes → Except Err α

/-- `writeRequest`: the request is encoded, written and flushed. -/
def writeRequest (key version : Int16) (body : List Put) : Call Conn Unit := ⟨fun c =>
  match encode (Protocol.Request.puts ⟨c.correlationID, c.clientID, key, version, body⟩) with
  | .error why => .error why c
  | .ok b =>
    if c.broken then .error (.err (if c.closed then .closed else .fault)) c
    else .ok () { c with sent := c.sent ++ b }⟩

/-- `c.correlationID++` -/
def increment : Call Conn Unit := ⟨fun c =>
  .ok () { c with correlationID := c.correlationID + 1 }⟩

/-- `doRequest`: the error of `write` is not returned, and the id is read after the lock is
released. -/
def doRequest (write : Call Conn Unit) : Call Conn Int32 := do
  increment
  match ← attempt write with
  | .error _ => close
  | .ok _ => pure ()
  ⟨fun c => .ok c.correlationID c⟩

/-- `do`, with so many rounds of `waitResponse`. Neither `Peek` nor `Decode` returns a
`protocol.Error`, so every error of `read` closes the connection. -/
def doOperation {α : Type} (op : Operation α) (rounds : Nat) : Call Conn α := do
  let id ← doRequest (writeRequest op.key op.version op.body)
  let size ← waitResponse id rounds
  match ← attempt (readResponse (fun b => (op.decode b).mapError .err) size) with
  | .error cause =>
    close
    unlock
    fail cause
  | .ok resp =>
    unlock
    return resp

section Lookups

variable {α : Type} {c : Conn} {r : BufReader}

theorem onReader_ok {call : Call BufReader α} {x : α} (ran : call.run c.rbuf = .ok x r) :
    (onReader call).run c = .ok x { c with rbuf := r } := zoom_ok ran

theorem onReader_error {call : Call BufReader α} {why : Stop}
    (ran : call.run c.rbuf = .error why r) :
    (onReader call).run c = .error why { c with rbuf := r } := zoom_error ran

theorem lock_of_free (free : c.rlocked = false) :
    lock.run c = .ok () { c with rlocked := true } := by
  simp only [lock, free, Bool.false_eq_true, if_false]

end Lookups

/-- The bytes of a response: the size of what follows it, the correlation id, the body. -/
def frame (id : Int32) (body : Bytes) : Bytes :=
  putUint 4 (4 + body.length) ++ (Put.rawInt32 id ++ body)

theorem length_head (id : Int32) (n : Nat) : (putUint 4 n ++ Put.rawInt32 id).length = 8 := by
  rw [length_append, length_putUint, Put.length_rawInt32]

theorem encode_response {id : Int32} {ops : List Put} {body b : Bytes} (nested : Nested ops)
    (content : encode ops = .ok body) (encoded : encode (Response.puts ⟨id, ops⟩) = .ok b)
    (small : body.length < 2 ^ 31 - 4) : b = frame id body := by
  have fits := fits_of_encode encoded
  have within : ∀ op ∈ ops, op.Fits := fun op inside => fits op (by simp [Response.puts, inside])
  obtain ⟨p, writes⟩ : ∃ p, Protocol.Writes checksumIEEE ops p := nested.writes
  obtain rfl : body = p := Except.ok.inj (content.symm.trans (encodeWith_writes writes within).2)
  have inner : Protocol.Writes checksumIEEE (.int32 id :: ops) (Put.rawInt32 id ++ body) :=
    .plain trivial writes
  have written := (encodeWith_writes (.frame .size inner .nil) fits).2
  rw [append_nil] at written
  rw [Except.ok.inj (encoded.symm.trans written), frame, Frame.mark, length_append,
    Put.length_rawInt32, Nat.mod_eq_of_lt (by omega)]

theorem makeInt32_putUint {n : Nat} (bound : n < 256 ^ 4) :
    makeInt32 (putUint 4 n) = Int32.ofNat n := by
  rw [makeInt32, getUint_putUint, Nat.mod_eq_of_lt bound]

theorem makeInt32_rawInt32 (i : Int32) : makeInt32 (Put.rawInt32 i) = i := by
  have bound : i.toUInt32.toNat < 256 ^ 4 := i.toUInt32.toNat_lt
  change makeInt32 (putUint 4 i.toUInt32.toNat) = i
  rw [makeInt32_putUint bound]
  obtain ⟨u⟩ := i
  exact congrArg Int32.ofUInt32 UInt32.ofNat_toNat

section Waiting

variable {c : Conn} {id : Int32} {rest : Bytes}

theorem peekResponseSizeAndID_of_content {n : Nat} (ready : c.rbuf.Ready) (large : 8 ≤ c.rbuf.size)
    (all : c.rbuf.content = putUint 4 n ++ Put.rawInt32 id ++ rest) :
    ∃ r, peekResponseSizeAndID.run c = .ok (makeInt32 (putUint 4 n), id) { c with rbuf := r } ∧
      r.Ready ∧ r.size = c.rbuf.size ∧ r.last = c.rbuf.last ∧
      r.content = putUint 4 n ++ Put.rawInt32 id ++ rest ∧ 8 ≤ r.buf.length := by
  have eight := length_head id n
  obtain ⟨r, ran, ready', size, last, content, buffered⟩ :=
    BufReader.peek_of_content ready all (by omega)
  rw [eight] at ran buffered
  change (BufReader.peek 8).run c.rbuf = _ at ran
  refine ⟨r, ?_, ready', size, last, content, buffered⟩
  unfold peekResponseSizeAndID
  rw [bind_ok (attempt_ok (onReader_ok ran))]
  simp only [take_left' (length_putUint 4 n), drop_left' (length_putUint 4 n),
    makeInt32_rawInt32]
  rfl

theorem skipResponseSizeAndID_of_content {p : Bytes} (eight : p.length = 8)
    (ready : c.rbuf.Ready) (all : c.rbuf.content = p ++ rest) (buffered : 8 ≤ c.rbuf.buf.length) :
    ∃ r, skipResponseSizeAndID.run c = .ok () { c with rbuf := r } ∧ r.Ready ∧
      r.size = c.rbuf.size ∧ r.last = c.rbuf.last ∧ r.content = rest := by
  obtain ⟨r, ran, facts⟩ := BufReader.discard_of_content ready all (by omega)
  rw [eight] at ran
  change (BufReader.discard 8).run c.rbuf = _ at ran
  refine ⟨r, ?_, facts⟩
  unfold skipResponseSizeAndID
  rw [bind_ok (attempt_ok (onReader_ok ran))]
  rfl

theorem size_sub_four {n : Nat} (small : n < 2 ^ 31 - 4) :
    (makeInt32 (putUint 4 (4 + n)) - 4).toInt = n := by
  have value : (Int32.ofNat (4 + n)).toInt = (4 + n : Nat) := Int32.toInt_ofNat_of_lt (by omega)
  rw [makeInt32_putUint (by omega), Int32.toInt_sub, value]
  change (((4 + n : Nat) : Int) - 4).bmod (2 ^ 32) = n
  rw [Int.bmod_eq_of_le (by omega) (by omega)]
  omega

theorem waitResponse_of_head {n : Nat} (small : n < 2 ^ 31 - 4) (free : c.rlocked = false)
    (ready : c.rbuf.Ready) (large : 8 ≤ c.rbuf.size)
    (all : c.rbuf.content = putUint 4 (4 + n) ++ Put.rawInt32 id ++ rest) :
    ∃ r, (∀ rounds, (waitResponse id (rounds + 1)).run c =
        .ok n { c with rbuf := r, rlocked := true }) ∧
      r.Ready ∧ r.size = c.rbuf.size ∧ r.last = c.rbuf.last ∧ r.content = rest := by
  obtain ⟨r₁, peeked, ready₁, size₁, last₁, content₁, buffered₁⟩ :=
    @peekResponseSizeAndID_of_content { c with rlocked := true } id rest _ ready large all
  obtain ⟨r₂, skipped, ready₂, size₂, last₂, content₂⟩ :=
    @skipResponseSizeAndID_of_content { c with rbuf := r₁, rlocked := true } rest _
      (length_head id _) ready₁ content₁ buffered₁
  refine ⟨r₂, fun rounds => ?_, ready₂, size₂.trans size₁, last₂.trans last₁, content₂⟩
  unfold waitResponse
  rw [bind_ok (lock_of_free free), bind_ok (attempt_ok peeked)]
  dsimp only
  rw [if_pos rfl, bind_ok skipped, size_sub_four small]
  rfl

theorem waitResponse_of_frame {body : Bytes} (small : body.length < 2 ^ 31 - 4)
    (free : c.rlocked = false) (ready : c.rbuf.Ready) (large : 8 ≤ c.rbuf.size)
    (all : c.rbuf.content = frame id body ++ rest) (rounds : Nat) :
    ∃ r, (waitResponse id (rounds + 1)).run c =
        .ok body.length { c with rbuf := r, rlocked := true } ∧
      r.Ready ∧ r.size = c.rbuf.size ∧ r.last = c.rbuf.last ∧ r.content = body ++ rest := by
  have split : c.rbuf.content =
      putUint 4 (4 + body.length) ++ Put.rawInt32 id ++ (body ++ rest) := by
    rw [all, frame]
    simp only [append_assoc]
  obtain ⟨r, waited, facts⟩ := waitResponse_of_head small free ready large split
  exact ⟨r, waited rounds, facts⟩

end Waiting

section Reading

variable {α : Type} {c : Conn} {body rest : Bytes}

/-- What a call returns that got `body` decoded. -/
def handed (decode : Bytes → Except Err α) (body : Bytes) (c : Conn) : Result Conn α :=
  match decode body with
  | .ok resp => .ok resp c
  | .error cause => .error (.err cause) c

/-- The bytes that are peeked are handed to `Decode`, whether they can be dropped or not. -/
theorem readResponse_of_peek (decode : Bytes → Except Err α) {size : Int} {b : Bytes}
    {r r' : BufReader} {result : Except Err Unit} (peeked : (BufReader.peek size).run c.rbuf = .ok b r)
    (dropping : (attempt (onReader (BufReader.discard size))).run { c with rbuf := r } =
      .ok result { c with rbuf := r' }) :
    (readResponse (fun b => (decode b).mapError .err) size).run c =
      handed decode b { c with rbuf := r' } := by
  unfold readResponse handed
  rw [bind_ok (onReader_ok peeked), bind_ok (attempt_lift (decode b) _),
    bind_ok dropping]
  cases decode b <;> rfl

theorem readResponse_of_content (decode : Bytes → Except Err α) (ready : c.rbuf.Ready)
    (all : c.rbuf.content = body ++ rest) (fits : body.length ≤ c.rbuf.size) :
    ∃ r, (readResponse (fun b => (decode b).mapError .err) body.length).run c =
        handed decode body { c with rbuf := r } ∧
      r.Ready ∧ r.size = c.rbuf.size ∧ r.last = c.rbuf.last ∧ r.content = rest := by
  obtain ⟨r₁, peeked, ready₁, size₁, last₁, content₁, buffered₁⟩ :=
    BufReader.peek_of_content ready all fits
  obtain ⟨r₂, dropped, ready₂, size₂, last₂, content₂⟩ :=
    BufReader.discard_of_content ready₁ content₁ buffered₁
  refine ⟨r₂, ?_, ready₂, size₂.trans size₁, last₂.trans last₁, content₂⟩
  have dropping : (onReader (BufReader.discard body.length)).run { c with rbuf := r₁ } =
      .ok () { c with rbuf := r₂ } := @onReader_ok _ { c with rbuf := r₁ } _ _ _ dropped
  exact readResponse_of_peek decode peeked (attempt_ok dropping)

theorem readResponse_of_size_lt (decode : Bytes → Except Stop α) (ready : c.rbuf.Ready)
    (large : c.rbuf.size < body.length) :
    ∃ r, (readResponse decode body.length).run c =
      .error (.err errBufferFull) { c with rbuf := r } ∧ r.content = c.rbuf.content ∧
      r.size = c.rbuf.size ∧ r.buf.length ≤ r.size := by
  obtain ⟨r, peeked, content, size, room⟩ := BufReader.peek_of_size_lt ready large
  exact ⟨r, bind_error (onReader_error peeked), content, size, room⟩

end Reading

/-- The call gets the body of its response decoded, and the next response is next. -/
def Delivers {α : Type} (decode : Bytes → Except Err α) (body rest : Bytes)
    (call : (Bytes → Except Stop α) → Call Conn α) (c : Conn) : Prop :=
  ∃ c', (call fun b => (decode b).mapError .err).run c = handed decode body c' ∧
    c'.rbuf.content = rest

section Delivery

variable {α : Type} {id : Int32} {body rest : Bytes} {conn : Chunks}

theorem delivers_iff (decode : Bytes → Except Err α) (small : body.length < 2 ^ 31 - 4)
    (arrives : conn.flatten = frame id body ++ rest) (last : Err) (broken : Bool) (clientID : Str)
    (rounds : Nat) :
    Delivers decode body rest (fun decode => waitResponse id (rounds + 1) >>= readResponse decode)
      (newConn conn last broken clientID) ↔ body.length ≤ 4096 := by
  obtain ⟨r, waited, ready, size, -, remains⟩ :=
    @waitResponse_of_frame (newConn conn last broken clientID) id rest body small rfl
      (BufReader.ready_newReader conn last) (show 8 ≤ 4096 by decide) arrives rounds
  change r.size = 4096 at size
  constructor
  · rintro ⟨c', ran, next⟩
    by_contra large
    obtain ⟨r', failed, same, -⟩ := @readResponse_of_size_lt α
      { newConn conn last broken clientID with rbuf := r, rlocked := true } body
      (fun b => (decode b).mapError .err) ready (by change r.size < _; omega)
    rw [bind_ok waited, failed] at ran
    have kept : c' = { newConn conn last broken clientID with rbuf := r', rlocked := true } := by
      unfold handed at ran
      split at ran
      · cases ran
      · cases ran
        rfl
    -- the body is still in front of the next response
    have length := congrArg length (same.trans remains)
    rw [kept] at next
    rw [show r'.content = rest from next, length_append] at length
    omega
  · intro fits
    obtain ⟨r', ran, -, -, -, next⟩ := @readResponse_of_content α
      { newConn conn last broken clientID with rbuf := r, rlocked := true } body rest decode ready
      remains (by change _ ≤ r.size; omega)
    exact ⟨_, (bind_ok waited).trans ran, next⟩

/-- However its bytes arrive, a response reaches `Decode` if and only if its body fits the buffer
of the reader. -/
theorem response_delivered_iff (decode : Bytes → Except Err α) {ops : List Put} {b : Bytes}
    (nested : Nested ops) (content : encode ops = .ok body)
    (encoded : encode (Response.puts ⟨id, ops⟩) = .ok b) (small : body.length < 2 ^ 31 - 4)
    (arrives : conn.flatten = b ++ rest) (last : Err) (broken : Bool) (clientID : Str)
    (rounds : Nat) :
    Delivers decode body rest (fun decode => waitResponse id (rounds + 1) >>= readResponse decode)
      (newConn conn last broken clientID) ↔ body.length ≤ 4096 := by
  rw [encode_response nested content encoded small] at arrives
  exact delivers_iff decode small arrives last broken clientID rounds

end Delivery

/-- Two bytes that arrive in three pieces, with the next response behind them. -/
theorem response_delivered_in_pieces :
    Delivers (fun b => Except.ok b) [5, 6] [0, 0] (fun decode => waitResponse 7 1 >>=
      readResponse decode) (newConn [[0, 0], [0, 6, 0, 0, 0, 7, 5], [6, 0, 0]] .eof false []) := by
  have nested : Nested [.rawBytes [5, 6]] := .plain trivial .nil
  exact (response_delivered_iff (fun b => Except.ok b) nested rfl rfl (by decide) rfl .eof false []
    0).mpr (by decide)

theorem encode_rawBytes {body : Bytes} (fits : body.length ≤ maxInt32) (id : Int32) :
    encode [.rawBytes body] = .ok body ∧
      ∃ b, encode (Response.puts ⟨id, [.rawBytes body]⟩) = .ok b := by
  have writes : Protocol.Writes checksumIEEE [.rawBytes body] (body ++ []) := .plain trivial .nil
  have inner : Protocol.Writes checksumIEEE [.int32 id, .rawBytes body]
      (Put.rawInt32 id ++ (body ++ [])) := .plain trivial writes
  have alone := (encodeWith_writes writes (by simpa [Put.Fits] using fits)).2
  rw [append_nil] at alone
  refine ⟨alone, _, (encodeWith_writes (.frame .size inner .nil) ?_).2⟩
  simpa [Put.Fits] using fits

/-- A body of 4097 bytes, one more than the buffer holds, is not delivered. -/
theorem long_response_not_delivered :
    ∃ body b : Bytes, body.length = 4097 ∧ encode [.rawBytes body] = .ok body ∧
      encode (Response.puts ⟨1, [.rawBytes body]⟩) = .ok b ∧
      ¬ Delivers (fun b => Except.ok b) body [] (fun decode => waitResponse 1 1 >>=
        readResponse decode) (newConn [b] .eof false []) := by
  obtain ⟨body, length⟩ : ∃ body : Bytes, body.length = 4097 :=
    ⟨List.replicate 4097 0, length_replicate⟩
  have fits : body.length ≤ maxInt32 := by
    rw [length]
    decide
  have nested : Nested [.rawBytes body] := .plain trivial .nil
  obtain ⟨content, b, encoded⟩ := encode_rawBytes fits 1
  refine ⟨body, b, length, content, encoded, fun delivered => ?_⟩
  have arrives : [b].flatten = frame 1 body ++ [] := by
    rw [encode_response nested content encoded (by omega)]
    simp
  have short := (delivers_iff (fun b => Except.ok b) (by omega) arrives .eof false [] 0).mp
    delivered
  omega

end Jocko.Broker.Client
