import Jocko.Broker.Client

namespace Jocko.Broker.Client

open Go Protocol List

variable {α : Type}

/-- The size and the id that a call finds when only `p` is left to read. -/
def headOf (p : Bytes) : Int32 × Int32 :=
  if 8 ≤ p.length then (makeInt32 ((p.take 8).take 4), makeInt32 ((p.take 8).drop 4)) else (0, 0)

/-- Nobody is in a call, nothing more comes, and `p` is left to read. -/
structure Ended (c : Conn) (p : Bytes) : Prop where
  free : c.rlocked = false
  drained : c.rbuf.Drained p
  large : 8 ≤ c.rbuf.size

variable {r : BufReader}

section Ended

variable {c : Conn} {p : Bytes}

theorem peekResponseSizeAndID_drained (drained : c.rbuf.Drained p) (large : 8 ≤ c.rbuf.size) :
    ∃ r, peekResponseSizeAndID.run c = .ok (headOf p) { c with rbuf := r } ∧ r.Drained p ∧
      r.size = c.rbuf.size := by
  unfold peekResponseSizeAndID headOf
  by_cases long : 8 ≤ p.length
  · have peeked : (BufReader.peek 8).run c.rbuf = .ok (p.take 8) c.rbuf := by
      rw [← drained.buf] at long ⊢
      exact BufReader.peek_of_buffered long large
    refine ⟨c.rbuf, ?_, drained, rfl⟩
    rw [bind_ok (attempt_ok (onReader_ok peeked)), if_pos long]
    rfl
  · obtain ⟨r, cause, drained', size, peeked⟩ :=
      BufReader.peek_drained_short drained large (not_le.mp long)
    change (BufReader.peek 8).run c.rbuf = _ at peeked
    refine ⟨r, ?_, drained', size⟩
    rw [bind_ok (attempt_err (onReader_error peeked)), if_neg long]
    rfl

variable {id : Int32}

section

variable {head : Int32 × Int32} (free : c.rlocked = false)
  (peeked : peekResponseSizeAndID.run { c with rlocked := true } =
    .ok head { c with rbuf := r, rlocked := true })
include free peeked

theorem waitResponse_of_other (other : id ≠ head.2) (rounds : Nat) :
    (waitResponse id (rounds + 1)).run c = (waitResponse id rounds).run { c with rbuf := r } := by
  have unlocked : unlock.run { c with rbuf := r, rlocked := true } =
      .ok () { c with rbuf := r } := by
    simp only [unlock, ← free]
  obtain ⟨rsz, rid⟩ := head
  conv_lhs => unfold waitResponse
  rw [bind_ok (lock_of_free free), bind_ok (attempt_ok peeked)]
  dsimp only
  rw [if_neg other, bind_ok unlocked]

theorem waitResponse_of_found (drained : r.Drained p) (found : id = head.2) :
    ∃ r', (∀ rounds, (waitResponse id (rounds + 1)).run c =
        .ok (head.1 - 4).toInt { c with rbuf := r', rlocked := true }) ∧
      r'.Drained (p.drop 8) ∧ r'.size = r.size := by
  obtain ⟨r', drained', size', dropped⟩ := BufReader.discard_drained drained 8
  have skipped : skipResponseSizeAndID.run { c with rbuf := r, rlocked := true } =
      .ok () { c with rbuf := r', rlocked := true } := by
    unfold skipResponseSizeAndID
    rcases dropped with ran | ⟨cause, ran⟩
    · exact bind_ok (attempt_ok
        (@onReader_ok _ { c with rbuf := r, rlocked := true } _ _ _ ran))
    · exact bind_ok (attempt_err
        (@onReader_error _ { c with rbuf := r, rlocked := true } _ _ _ ran))
  obtain ⟨rsz, rid⟩ := head
  refine ⟨r', fun rounds => ?_, drained', size'⟩
  unfold waitResponse
  rw [bind_ok (lock_of_free free), bind_ok (attempt_ok peeked)]
  dsimp only
  rw [if_pos found, bind_ok skipped]
  rfl

end

/-- A call that waits for another id than the one it finds never stops waiting. -/
theorem waitResponse_hangs (ended : Ended c p) (other : id ≠ (headOf p).2)
    (rounds : Nat) : ∃ c', (waitResponse id rounds).run c = .error .diverge c' := by
  induction rounds generalizing c with
  | zero => exact ⟨c, rfl⟩
  | succ rounds ih =>
    obtain ⟨r, peeked, drained, size⟩ := @peekResponseSizeAndID_drained
      { c with rlocked := true } p ended.drained ended.large
    have next : Ended { c with rbuf := r } p := ⟨ended.free, drained, size ▸ ended.large⟩
    rw [waitResponse_of_other ended.free peeked other]
    exact ih next

theorem waitResponse_drained (ended : Ended c p) (found : id = (headOf p).2)
    (rounds : Nat) :
    ∃ r, (waitResponse id (rounds + 1)).run c =
        .ok ((headOf p).1 - 4).toInt { c with rbuf := r, rlocked := true } ∧
      r.Drained (p.drop 8) ∧ r.size = c.rbuf.size := by
  obtain ⟨r, peeked, drained, size⟩ := @peekResponseSizeAndID_drained
    { c with rlocked := true } p ended.drained ended.large
  obtain ⟨r', waited, drained', size'⟩ :=
    waitResponse_of_found ended.free peeked drained found
  exact ⟨r', waited rounds, drained', size'.trans size⟩

/-- What is left is never read past, whatever size is taken from it. -/
theorem readResponse_drained (decode : Bytes → Except Err α) (size : Int)
    (drained : c.rbuf.Drained p) :
    ∃ r q, r.Drained q ∧ q.length ≤ p.length ∧ r.size = c.rbuf.size ∧
      ((∃ x, (readResponse (fun b => (decode b).mapError .err) size).run c =
          .ok x { c with rbuf := r }) ∨
        ∃ cause, (readResponse (fun b => (decode b).mapError .err) size).run c =
          .error (.err cause) { c with rbuf := r }) := by
  obtain ⟨r, drained', same, ⟨b, peeked⟩ | ⟨cause, peeked⟩⟩ := BufReader.peek_drained drained size
  · have positive : ¬ size < 0 := by
      intro negative
      simp only [BufReader.peek, if_pos negative] at peeked
      cases peeked
    obtain ⟨n, rfl⟩ := Int.eq_ofNat_of_zero_le (not_lt.mp positive)
    obtain ⟨r', drained'', same', dropped⟩ := BufReader.discard_drained drained' n
    have dropping : ∃ result, (attempt (onReader (BufReader.discard n))).run { c with rbuf := r } =
        .ok result { c with rbuf := r' } := by
      rcases dropped with ran | ⟨cause, ran⟩
      · exact ⟨_, attempt_ok (@onReader_ok _ { c with rbuf := r } _ _ _ ran)⟩
      · exact ⟨_, attempt_err (@onReader_error _ { c with rbuf := r } _ _ _ ran)⟩
    obtain ⟨result, dropping⟩ := dropping
    refine ⟨r', p.drop n, drained'', by rw [length_drop]; omega, same'.trans same, ?_⟩
    rw [readResponse_of_peek decode peeked dropping, handed]
    cases decode b with
    | ok x => exact .inl ⟨x, rfl⟩
    | error cause => exact .inr ⟨cause, rfl⟩
  · exact ⟨r, p, drained', Nat.le_refl _, same, .inr ⟨cause,
      bind_error (onReader_error peeked)⟩⟩

end Ended

/-- The result may be an error, but no panic. -/
def Mild {β : Type} (result : Except Stop β) : Prop :=
  ∀ why, result = .error why → ∃ cause, why = .err cause

namespace Mild

variable {β γ : Type}

theorem ok (x : β) : Mild (.ok x) := by
  rintro why ⟨⟩

theorem err (cause : Err) : Mild (.error (.err cause) : Except Stop β) := by
  rintro why ⟨⟩
  exact ⟨cause, rfl⟩

theorem bind {first : Except Stop β} {next : β → Except Stop γ} (mild : Mild first)
    (rest : ∀ x, Mild (next x)) : Mild (first >>= next) := by
  intro why failed
  cases first with
  | ok x => exact rest x why failed
  | error cause =>
    cases failed
    exact mild _ rfl

theorem ite {p : Prop} [Decidable p] {yes no : Except Stop β} (mild : Mild yes) (mild' : Mild no) :
    Mild (if p then yes else no) := by
  split
  · exact mild
  · exact mild'

theorem lenString (s : Str) : Mild (lenString s) := ite (err _) (ok _)

theorem lenArray (n : Int) : Mild (lenArray n) := ite (err _) (ok _)

theorem lenStrings (ss : List Str) : Mild (lenStrings ss) := by
  induction ss with
  | nil => exact ok _
  | cons s ss ih => exact (lenString s).bind fun _ => ih.bind fun _ => ok _

theorem len (put : Put) : Mild put.len := by
  cases put with
  | arrayLength n => exact lenArray n
  | rawBytes p => exact ite (err _) (ok _)
  | bytes p =>
    cases p with
    | none => exact ok _
    | some p => exact ite (err _) (ok _)
  | string s => exact lenString s
  | nullableString s =>
    cases s with
    | none => exact ok _
    | some s => exact lenString s
  | stringArray ss => exact (lenArray _).bind fun _ => (lenStrings ss).bind fun _ => ok _
  | int32Array is => exact (lenArray _).bind fun _ => ok _
  | int64Array is => exact (lenArray _).bind fun _ => ok _
  | _ => exact ok _

theorem lenEncode (ops : List Put) : Mild (lenEncode ops) := by
  induction ops with
  | nil => exact ok _
  | cons op ops ih => exact (len op).bind fun _ => ih.bind fun _ => ok _

end Mild

section Writing

variable {c : Conn}

theorem encode_request (op : Operation α) (id : Int32) (clientID : Str) :
    (∃ b, encode (Protocol.Request.puts ⟨id, clientID, op.key, op.version, op.body⟩) = .ok b) ∨
      ∃ cause, encode (Protocol.Request.puts ⟨id, clientID, op.key, op.version, op.body⟩) =
        .error (.err cause) := by
  have nested : Nested (Protocol.Request.puts ⟨id, clientID, op.key, op.version, op.body⟩) := by
    have inner : Nested ([.int16 op.key, .int16 op.version, .int32 id, .string clientID] ++
        op.body) := .plain trivial (.plain trivial (.plain trivial (.plain trivial op.nested)))
    exact .frame .size inner .nil
  obtain ⟨p, writes⟩ : ∃ p, Protocol.Writes checksumIEEE _ p := nested.writes
  cases accepted : lenEncode
      (Protocol.Request.puts ⟨id, clientID, op.key, op.version, op.body⟩) with
  | ok n => exact .inl ⟨p, (encodeWith_writes writes (lenEncode_eq_ok.mp accepted).1).2⟩
  | error why =>
    obtain ⟨cause, rfl⟩ := Mild.lenEncode _ why accepted
    refine .inr ⟨cause, ?_⟩
    simp only [encode, encodeWith, accepted]
    rfl

/-- What `Close` leaves of a connection. -/
def Conn.shut (c : Conn) : Conn :=
  { c with closed := true, broken := true, rbuf := { c.rbuf with conn := [], last := .closed } }

/-- The request is written: the connection takes bytes and the request can be encoded. -/
def Conn.Writes (c : Conn) (op : Operation α) : Prop :=
  c.broken = false ∧ ∃ b, encode (Protocol.Request.puts
    ⟨c.correlationID + 1, c.clientID, op.key, op.version, op.body⟩) = .ok b

/-- The connection with the id of the next call. -/
def Conn.counted (c : Conn) : Conn := { c with correlationID := c.correlationID + 1 }

/-- The call has its id, and waits for the response. -/
def Asked (op : Operation α) (c : Conn) (id : Int32) (c' : Conn) : Prop :=
  (doRequest (writeRequest op.key op.version op.body)).run c = .ok id c'

/-- A request that cannot be written closes the connection, and the call goes on. -/
theorem doRequest_of_fails {op : Operation α} (fails : ¬ c.Writes op) :
    Asked op c (c.correlationID + 1) c.counted.shut := by
  have failed : ∃ cause, (writeRequest op.key op.version op.body).run c.counted =
      .error (.err cause) c.counted := by
    unfold writeRequest
    rcases encode_request op (c.correlationID + 1) c.clientID with ⟨b, encoded⟩ | ⟨cause, refused⟩
    · have broken : c.broken = true := by
        cases stays : c.broken with
        | true => rfl
        | false => exact (fails ⟨stays, b, encoded⟩).elim
      refine ⟨if c.closed then .closed else .fault, ?_⟩
      simp only [Conn.counted, encoded, broken, if_true]
    · refine ⟨cause, ?_⟩
      simp only [Conn.counted, refused]
  obtain ⟨cause, failed⟩ := failed
  unfold Asked doRequest
  rw [bind_ok (show increment.run c = .ok () c.counted from rfl),
    bind_ok (attempt_err failed)]
  rfl

theorem doRequest_of_writes {op : Operation α} (writes : c.Writes op) :
    ∃ b, Asked op c (c.correlationID + 1) { c.counted with sent := c.sent ++ b } := by
  obtain ⟨stays, b, encoded⟩ := writes
  refine ⟨b, ?_⟩
  have written : (writeRequest op.key op.version op.body).run c.counted =
      .ok () { c.counted with sent := c.sent ++ b } := by
    unfold writeRequest
    simp only [Conn.counted, encoded, stays, Bool.false_eq_true, if_false]
  unfold Asked doRequest
  rw [bind_ok (show increment.run c = .ok () c.counted from rfl),
    bind_ok (attempt_ok written)]
  rfl

end Writing

/-- The call returns an error, and leaves `c'`. -/
def ReturnsError (op : Operation α) (c c' : Conn) : Prop :=
  ∃ rounds cause, (doOperation op rounds).run c = .error (.err cause) c'

/-- The call returns. -/
def Returns (op : Operation α) (c c' : Conn) : Prop :=
  (∃ rounds x, (doOperation op rounds).run c = .ok x c') ∨ ReturnsError op c c'

/-- However long it is waited for, the call does not return. -/
def Hangs (op : Operation α) (c : Conn) : Prop :=
  ∀ rounds, ∃ c', (doOperation op rounds).run c = .error .diverge c'

theorem Hangs.not_returns {op : Operation α} {c c' : Conn} (hangs : Hangs op c) :
    ¬ Returns op c c' := by
  rintro (⟨rounds, x, ran⟩ | ⟨rounds, cause, ran⟩)
  · obtain ⟨c'', stuck⟩ := hangs rounds
    rw [stuck] at ran
    cases ran
  · obtain ⟨c'', stuck⟩ := hangs rounds
    rw [stuck] at ran
    cases ran

/-- A connection that was closed, with `p` left to read. -/
structure Dead (c : Conn) (p : Bytes) : Prop extends Ended c p where
  closed : c.closed = true
  broken : c.broken = true

section Calls

variable {op : Operation α} {c c₁ : Conn} {p : Bytes} {id : Int32}

theorem Ended.shut (ended : Ended c p) : Dead c.shut p :=
  ⟨⟨ended.free, ⟨rfl, ended.drained.buf, ended.drained.room⟩, ended.large⟩, rfl, rfl⟩

section

variable (requested : Asked op c id c₁)
include requested

theorem hangs_of_waits
    (waits : ∀ rounds, ∃ c', (waitResponse id rounds).run c₁ = .error .diverge c') : Hangs op c := by
  intro rounds
  obtain ⟨c', stuck⟩ := waits rounds
  refine ⟨c', ?_⟩
  unfold doOperation
  rw [bind_ok requested]
  exact bind_error stuck

theorem hangs_of_other (ended : Ended c₁ p) (other : id ≠ (headOf p).2) : Hangs op c :=
  hangs_of_waits requested (waitResponse_hangs ended other)

variable {c₂ c₃ : Conn} {size : Int} {rounds : Nat}
  (waited : (waitResponse id rounds).run c₁ = .ok size c₂)
include waited

theorem doOperation_error {cause : Err}
    (failed : (readResponse (fun b => (op.decode b).mapError .err) size).run c₂ =
      .error (.err cause) c₃) :
    (doOperation op rounds).run c = .error (.err cause) { c₃.shut with rlocked := false } := by
  unfold doOperation
  rw [bind_ok requested, bind_ok waited, bind_ok (attempt_err failed)]
  rfl

theorem doOperation_ok {x : α}
    (read : (readResponse (fun b => (op.decode b).mapError .err) size).run c₂ = .ok x c₃) :
    (doOperation op rounds).run c = .ok x { c₃ with rlocked := false } := by
  unfold doOperation
  rw [bind_ok requested, bind_ok waited, bind_ok (attempt_ok read)]
  rfl

end

/-- A call on a dead connection that finds its id returns, and has taken eight bytes. -/
theorem returns_of_found (requested : Asked op c id c₁) (dead : Dead c₁ p)
    (found : id = (headOf p).2) :
    ∃ c' q, Returns op c c' ∧ Dead c' q ∧ q.length ≤ p.length - 8 ∧
      c'.correlationID = c₁.correlationID := by
  obtain ⟨r, waited, drained, size⟩ := waitResponse_drained dead.toEnded found 0
  obtain ⟨r', q, drained', shorter, size', ⟨x, read⟩ | ⟨cause, failed⟩⟩ :=
    @readResponse_drained α { c₁ with rbuf := r, rlocked := true } (p.drop 8) op.decode
      ((headOf p).1 - 4).toInt drained
  all_goals
    have large : 8 ≤ r'.size := by
      have enough := dead.large
      change r'.size = r.size at size'
      omega
    rw [length_drop] at shorter
  · exact ⟨_, q, .inl ⟨1, x, doOperation_ok requested waited read⟩,
      ⟨⟨rfl, drained', large⟩, dead.closed, dead.broken⟩, shorter, rfl⟩
  · exact ⟨_, q, .inr ⟨1, cause, doOperation_error requested waited failed⟩,
      ⟨⟨rfl, ⟨rfl, drained'.buf, drained'.room⟩, large⟩, rfl, rfl⟩, shorter, rfl⟩

theorem headOf_short (short : p.length < 8) : headOf p = (0, 0) := if_neg (not_le.mpr short)

/-- Calls one after the other, each of which returns. -/
def Later : (Nat → Operation α) → Nat → Conn → Conn → Prop
  | _, 0, c, c' => c' = c
  | ops, n + 1, c, c'' => ∃ c', Returns (ops 0) c c' ∧ Later (fun i => ops (i + 1)) n c' c''

theorem Dead.requests (dead : Dead c p) (op : Operation α) :
    Asked op c (c.correlationID + 1) c.counted.shut := by
  refine doRequest_of_fails fun writes => ?_
  have broken := dead.broken
  rw [writes.1] at broken
  cases broken

theorem Dead.counted (dead : Dead c p) :
    Dead c.counted.shut p :=
  Ended.shut ⟨dead.free, dead.drained, dead.large⟩

/-- Sooner or later a call on a dead connection does not return: the bytes that are left get fewer,
and where there is no head left only a call with the id 0 returns. -/
theorem Dead.eventually_hangs (dead : Dead c p) (ops : Nat → Operation α) :
    ∃ n c', Later ops n c c' ∧ Hangs (ops n) c' := by
  induction length : p.length using Nat.strong_induction_on generalizing c p ops with
  | _ k ih =>
    by_cases found : c.correlationID + 1 = (headOf p).2
    · obtain ⟨c', q, returned, dead', shorter, same⟩ :=
        returns_of_found (dead.requests (ops 0)) dead.counted found
      by_cases long : 8 ≤ p.length
      · obtain ⟨n, c'', later, hangs⟩ :=
          ih q.length (by omega) dead' (fun i => ops (i + 1)) rfl
        exact ⟨n + 1, c'', ⟨c', returned, later⟩, hangs⟩
      · -- the id was 0, so the next one is 1
        have zero : c'.correlationID = 0 := by
          rw [headOf_short (not_le.mp long)] at found
          exact same.trans found
        refine ⟨1, c', ⟨c', returned, rfl⟩,
          hangs_of_other (dead'.requests (ops 1)) dead'.counted.toEnded ?_⟩
        rw [zero, headOf_short (by omega)]
        decide
    · exact ⟨0, c, rfl, hangs_of_other (dead.requests (ops 0)) dead.counted.toEnded found⟩

end Calls

/-- A connection on which no call is going on and no bytes wait in the buffer. -/
structure Idle (c : Conn) : Prop where
  free : c.rlocked = false
  ready : c.rbuf.Ready
  large : 8 ≤ c.rbuf.size
  empty : c.rbuf.buf = []

theorem idle_newConn (conn : Chunks) (last : Err) (broken : Bool) (clientID : Str) :
    Idle (newConn conn last broken clientID) :=
  ⟨rfl, BufReader.ready_newReader conn last, show 8 ≤ 4096 by decide, rfl⟩

/-- The points at which the connection can fail during a call: the request is not written, or only
a front part of the response comes. -/
inductive Fails (op : Operation α) (c : Conn) : Prop
  | write (unwritten : ¬ c.Writes op)
  | cut (writes : c.Writes op) (body : Bytes) (small : body.length < 2 ^ 31 - 4)
      (front : c.rbuf.conn.flatten <+: frame (c.correlationID + 1) body)
      (short : c.rbuf.conn.flatten.length < (frame (c.correlationID + 1) body).length)

/-- The call returns an error, after any positive number of rounds, and leaves the connection
dead. -/
def Stops (op : Operation α) (c : Conn) : Prop :=
  ∃ c' q cause, Dead c' q ∧
    ∀ rounds, (doOperation op (rounds + 1)).run c = .error (.err cause) c'

section First

variable {op : Operation α} {c c₁ : Conn} {p : Bytes} {id : Int32}

theorem readResponse_negative (decode : Bytes → Except Stop α) :
    (readResponse decode ((0 : Int32) - 4).toInt).run c = .error (.err errNegativeCount) c := by
  have negative : ((0 : Int32) - 4).toInt = -4 := by decide
  rw [negative]
  rfl

/-- A call that finds no head takes 0 for the id, and -4 for the size. -/
theorem stops_of_zero (requested : Asked op c 0 c₁) (free : c₁.rlocked = false)
    (peeked : peekResponseSizeAndID.run { c₁ with rlocked := true } =
      .ok (0, 0) { c₁ with rbuf := r, rlocked := true })
    (drained : r.Drained p) (large : 8 ≤ r.size) : Stops op c := by
  obtain ⟨r', waited, drained', size'⟩ := waitResponse_of_found free peeked drained rfl
  have enough : 8 ≤ r'.size := by omega
  refine ⟨{ ({ c₁ with rbuf := r', rlocked := true } : Conn).shut with rlocked := false },
    p.drop 8, errNegativeCount, ⟨⟨rfl, ⟨rfl, drained'.buf, drained'.room⟩, enough⟩, rfl, rfl⟩,
    fun rounds => ?_⟩
  exact doOperation_error requested (waited rounds) (readResponse_negative _)

/-- No head comes: the call stops if its id is 0, and hangs otherwise. -/
theorem stops_or_hangs_of_short (requested : Asked op c id c₁) (free : c₁.rlocked = false)
    (peeked : peekResponseSizeAndID.run { c₁ with rlocked := true } =
      .ok (0, 0) { c₁ with rbuf := r, rlocked := true })
    (drained : r.Drained p) (short : p.length < 8) (large : 8 ≤ r.size) :
    (id = 0 → Stops op c) ∧ (id ≠ 0 → Hangs op c) := by
  refine ⟨?_, fun other => hangs_of_waits requested fun rounds => ?_⟩
  · rintro rfl
    exact stops_of_zero requested free peeked drained large
  · have ended : Ended { c₁ with rbuf := r } p := ⟨free, drained, large⟩
    cases rounds with
    | zero => exact ⟨c₁, rfl⟩
    | succ rounds =>
      rw [waitResponse_of_other free peeked other]
      exact waitResponse_hangs ended (by rwa [headOf_short short]) rounds

theorem peekResponseSizeAndID_short (ready : c.rbuf.Ready) (large : 8 ≤ c.rbuf.size)
    (short : c.rbuf.content.length < 8) :
    ∃ r, peekResponseSizeAndID.run c = .ok (0, 0) { c with rbuf := r } ∧
      r.Drained c.rbuf.content ∧ r.size = c.rbuf.size := by
  obtain ⟨r, peeked, ready', size, -, buf, ended⟩ := BufReader.peek_of_short ready large short
  change (BufReader.peek 8).run c.rbuf = _ at peeked
  refine ⟨r, ?_, ⟨ended, buf, ready'.room⟩, size⟩
  unfold peekResponseSizeAndID
  rw [bind_ok (attempt_err (onReader_error peeked))]
  rfl

theorem readResponse_cut (decode : Bytes → Except Stop α) {n : Nat} (ready : c.rbuf.Ready)
    (short : c.rbuf.content.length < n) :
    ∃ r cause, (readResponse decode n).run c = .error (.err cause) { c with rbuf := r } ∧
      r.size = c.rbuf.size ∧ r.buf.length ≤ r.size := by
  by_cases fits : n ≤ c.rbuf.size
  · obtain ⟨r, peeked, ready', size, -⟩ := BufReader.peek_of_short ready fits short
    exact ⟨r, _, bind_error (onReader_error peeked), size, ready'.room⟩
  · obtain ⟨r, peeked, -, size, room⟩ := BufReader.peek_of_size_lt ready (not_le.mp fits)
    exact ⟨r, _, bind_error (onReader_error peeked), size, room⟩

/-- A response that ends within its body makes the call stop. -/
theorem stops_of_body {body : Bytes} (idle : Idle c) (writes : c.Writes op)
    (small : body.length < 2 ^ 31 - 4)
    (front : c.rbuf.conn.flatten <+: frame (c.correlationID + 1) body)
    (short : c.rbuf.conn.flatten.length < (frame (c.correlationID + 1) body).length)
    (within : 8 ≤ c.rbuf.conn.flatten.length) : Stops op c := by
  obtain ⟨b, requested⟩ := doRequest_of_writes writes
  have arrived : c.rbuf.content = c.rbuf.conn.flatten := by
    rw [BufReader.content, idle.empty, nil_append]
  have head := length_head (c.correlationID + 1) (4 + body.length)
  have whole : frame (c.correlationID + 1) body =
      putUint 4 (4 + body.length) ++ Put.rawInt32 (c.correlationID + 1) ++ body := by
    rw [frame, append_assoc]
  obtain ⟨rest, split⟩ : putUint 4 (4 + body.length) ++ Put.rawInt32 (c.correlationID + 1) <+:
      c.rbuf.conn.flatten :=
    prefix_of_prefix_length_le (whole ▸ prefix_append ..) front (head ▸ within)
  have missing : rest.length < body.length := by
    have total := congrArg length split
    have full := congrArg length whole
    rw [length_append, head] at total full
    omega
  obtain ⟨r, waited, ready, size, -, content⟩ := @waitResponse_of_head
    { c.counted with sent := c.sent ++ b } (c.correlationID + 1) rest body.length small idle.free
      idle.ready idle.large (arrived.trans split.symm)
  obtain ⟨r', cause, failed, size', room⟩ := @readResponse_cut α
    { c.counted with sent := c.sent ++ b, rbuf := r, rlocked := true }
    (fun b => (op.decode b).mapError .err) body.length ready (by
      change r.content.length < _
      rwa [content])
  have enough : 8 ≤ r'.size := by
    have large := idle.large
    change r'.size = r.size at size'
    change r.size = c.rbuf.size at size
    omega
  exact ⟨_, r'.buf, cause, ⟨⟨rfl, ⟨rfl, rfl, room⟩, enough⟩, rfl, rfl⟩,
    fun rounds => doOperation_error requested (waited rounds) failed⟩

theorem first_call (idle : Idle c) (fails : Fails op c) :
    ((c.Writes op ∧ 8 ≤ c.rbuf.conn.flatten.length) ∨ c.correlationID + 1 = 0 → Stops op c) ∧
      (¬ ((c.Writes op ∧ 8 ≤ c.rbuf.conn.flatten.length) ∨ c.correlationID + 1 = 0) →
        Hangs op c) := by
  cases fails with
  | write unwritten =>
    have ended : Ended c.counted.shut [] :=
      ⟨idle.free, ⟨rfl, idle.empty, idle.ready.room⟩, idle.large⟩
    obtain ⟨r, peeked, drained, size⟩ := @peekResponseSizeAndID_drained
      { c.counted.shut with rlocked := true } [] ended.drained ended.large
    have large : 8 ≤ r.size := size ▸ ended.large
    obtain ⟨stops, hangs⟩ := stops_or_hangs_of_short (doRequest_of_fails unwritten) ended.free
      peeked drained (show 0 < 8 by decide) large
    refine ⟨?_, fun neither => hangs fun zero => neither (.inr zero)⟩
    rintro (⟨writes, -⟩ | zero)
    · exact (unwritten writes).elim
    · exact stops zero
  | cut writes body small front short =>
    by_cases within : 8 ≤ c.rbuf.conn.flatten.length
    · exact ⟨fun _ => stops_of_body idle writes small front short within,
        fun neither => (neither (.inl ⟨writes, within⟩)).elim⟩
    · have arrived : c.rbuf.content = c.rbuf.conn.flatten := by
        rw [BufReader.content, idle.empty, nil_append]
      have headless : c.rbuf.content.length < 8 := by
        rw [arrived]
        exact not_le.mp within
      obtain ⟨b, requested⟩ := doRequest_of_writes writes
      obtain ⟨r, peeked, drained, size⟩ := @peekResponseSizeAndID_short
        { c.counted with sent := c.sent ++ b, rlocked := true }
        idle.ready idle.large headless
      have large : 8 ≤ r.size := size ▸ idle.large
      obtain ⟨stops, hangs⟩ := stops_or_hangs_of_short requested idle.free peeked drained
        headless large
      refine ⟨?_, fun neither => hangs fun zero => neither (.inr zero)⟩
      rintro (⟨-, long⟩ | zero)
      · exact (within long).elim
      · exact stops zero

theorem not_returnsError_zero {c' : Conn} {cause : Err} :
    (doOperation op 0).run c ≠ .error (.err cause) c' := by
  intro ran
  by_cases writes : c.Writes op
  · obtain ⟨b, requested⟩ := doRequest_of_writes writes
    unfold doOperation at ran
    rw [bind_ok requested] at ran
    cases ran
  · unfold doOperation at ran
    rw [bind_ok (doRequest_of_fails writes)] at ran
    cases ran

theorem Stops.dead {c' : Conn} (stops : Stops op c) (returned : ReturnsError op c c') :
    ∃ q, Dead c' q := by
  obtain ⟨c'', q, cause, dead, always⟩ := stops
  obtain ⟨rounds, cause', ran⟩ := returned
  cases rounds with
  | zero => exact (not_returnsError_zero ran).elim
  | succ rounds =>
    rw [always rounds] at ran
    cases ran
    exact ⟨q, dead⟩

end First

/-- The call returns an error, with the connection closed and the lock released. -/
def EndsCall (op : Operation α) (c : Conn) : Prop :=
  ∃ c', ReturnsError op c c' ∧ c'.closed = true ∧ c'.rlocked = false

/-- It does, and all the later calls return too. -/
def EndsAll (op : Operation α) (ops : Nat → Operation α) (c : Conn) : Prop :=
  ∃ c', ReturnsError op c c' ∧ c'.closed = true ∧ c'.rlocked = false ∧
    ∀ n before, Later ops n c' before → ∃ after, Returns (ops n) before after

/-- A call on a connection that fails ends only where the response ends within its body, or where
the id of the call is 0; and there always is a later call that does not return. -/
theorem broken_connection_ends {op : Operation α} {c : Conn} (idle : Idle c) (fails : Fails op c) :
    (EndsCall op c ↔
      (c.Writes op ∧ 8 ≤ c.rbuf.conn.flatten.length) ∨ c.correlationID + 1 = 0) ∧
    ∀ ops, ¬ EndsAll op ops c := by
  obtain ⟨stops, hangs⟩ := first_call idle fails
  have ends {c' : Conn} (returned : ReturnsError op c c') :
      (c.Writes op ∧ 8 ≤ c.rbuf.conn.flatten.length) ∨ c.correlationID + 1 = 0 := by
    by_contra neither
    exact (hangs neither).not_returns (.inr returned)
  refine ⟨⟨fun ⟨c', returned, _⟩ => ends returned, fun holds => ?_⟩, ?_⟩
  · obtain ⟨c', q, cause, dead, always⟩ := stops holds
    exact ⟨c', ⟨1, cause, always 0⟩, dead.closed, dead.free⟩
  · rintro ops ⟨c', returned, -, -, returns⟩
    obtain ⟨q, dead⟩ := (stops (ends returned)).dead returned
    obtain ⟨n, before, later, stuck⟩ := dead.eventually_hangs ops
    obtain ⟨after, back⟩ := returns n before later
    exact stuck.not_returns back

/-- `ListGroups`, whose response is not looked at. -/
def Operation.listGroups : Operation Unit where
  key := 16
  version := 0
  body := []
  nested := .nil
  decode _ := .ok ()

/-- The peer closes a new connection before it answers. -/
theorem broken_connection_ends_closed :
    ¬ EndsCall Operation.listGroups (newConn [] .eof false []) ∧
      ∀ ops, ¬ EndsAll Operation.listGroups ops (newConn [] .eof false []) := by
  have fails : Fails Operation.listGroups (newConn [] .eof false []) :=
    .cut ⟨rfl, _, rfl⟩ [] (by decide) nil_prefix (by decide)
  obtain ⟨ends, later⟩ := broken_connection_ends (idle_newConn [] .eof false []) fails
  refine ⟨fun ended => ?_, later⟩
  rcases ends.mp ended with ⟨-, long⟩ | zero
  · exact absurd long (by decide)
  · exact absurd zero (by decide)

/-- The first call on a connection that the peer closes at once never returns. -/
theorem closed_connection_hangs :
    Fails Operation.listGroups (newConn [] .eof false []) ∧
      Hangs Operation.listGroups (newConn [] .eof false []) := by
  have fails : Fails Operation.listGroups (newConn [] .eof false []) :=
    .cut ⟨rfl, _, rfl⟩ [] (by decide) nil_prefix (by decide)
  refine ⟨fails, (first_call (idle_newConn [] .eof false []) fails).2 ?_⟩
  rintro (⟨-, long⟩ | zero)
  · exact absurd long (by decide)
  · exact absurd zero (by decide)

end Jocko.Broker.Client
