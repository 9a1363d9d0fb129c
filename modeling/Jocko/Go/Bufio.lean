import Jocko.Go.Conn

namespace Jocko.Go

open List

def errNegativeCount : Err := .new "bufio: negative count"

def errBufferFull : Err := .new "bufio: buffer full"

/-- A `bufio.Reader` with a buffer of `size` bytes. `buf` is what was read and not handed out yet
and `err` what the last `Read` returned; `conn` is still to come, and then `last`. -/
structure BufReader where
  size : Nat
  buf : Bytes
  err : Option Err
  conn : Chunks
  last : Err

/-- `bufio.NewReader` -/
def newReader (conn : Chunks) (last : Err) : BufReader :=
  { size := 4096, buf := [], err := none, conn, last }

namespace BufReader

/-- All the bytes that are not handed out yet. -/
def content (r : BufReader) : Bytes := r.buf ++ r.conn.flatten

/-- `fill`: one `Read` into the free part of the buffer. A `Read` returns a byte at least. -/
def fill (r : BufReader) : BufReader :=
  match r.conn.dropWhile List.isEmpty with
  | [] => { r with conn := [], err := some r.last }
  | c :: conn =>
    let room := r.size - r.buf.length
    { r with buf := r.buf ++ c.take room, conn := c.drop room :: conn }

/-- The condition of the loop of `Peek`. -/
def Wants (r : BufReader) (n : Nat) : Prop :=
  r.buf.length < n ∧ r.buf.length < r.size ∧ r.err = none

instance (r : BufReader) (n : Nat) : Decidable (r.Wants n) :=
  inferInstanceAs (Decidable (_ ∧ _ ∧ _))

/-- The loop of `Peek`, which runs `size + 1` times at most. -/
def fillTo (n : Nat) : Nat → BufReader → BufReader
  | 0, r => r
  | fuel + 1, r => if r.Wants n then fillTo n fuel r.fill else r

/-- `Peek`; an error that is returned is forgotten. -/
def peek (n : Int) : Call BufReader Bytes := ⟨fun r =>
  if n < 0 then .error (.err errNegativeCount) r
  else
    let r := fillTo n.toNat (r.size + 1) r
    if (r.size : Int) < n then .error (.err errBufferFull) r
    else if (r.buf.length : Int) < n then
      .error (.err (r.err.getD errBufferFull)) { r with err := none }
    else .ok (r.buf.take n.toNat) r⟩

/-- The loop of `Discard` with `remain` bytes to go, each round of which drops one at least. -/
def discardLoop : Nat → Nat → BufReader → Result BufReader Unit
  | 0, _, r => .error .diverge r
  | fuel + 1, remain, r =>
    let r := if r.buf = [] then r.fill else r
    let skip := min r.buf.length remain
    let r := { r with buf := r.buf.drop skip }
    if remain - skip = 0 then .ok () r
    else match r.err with
      | some cause => .error (.err cause) { r with err := none }
      | none => discardLoop fuel (remain - skip) r

/-- `Discard` -/
def discard (n : Int) : Call BufReader Unit := ⟨fun r =>
  if n < 0 then .error (.err errNegativeCount) r
  else if n = 0 then .ok () r
  else discardLoop n.toNat n.toNat r⟩

/-- No error is pending, and the buffer is not overfull. -/
structure Ready (r : BufReader) : Prop where
  quiet : r.err = none
  room : r.buf.length ≤ r.size

theorem ready_newReader (conn : Chunks) (last : Err) : (newReader conn last).Ready :=
  ⟨rfl, Nat.zero_le _⟩

theorem flatten_dropWhile (chunks : Chunks) :
    (chunks.dropWhile List.isEmpty).flatten = chunks.flatten := by
  induction chunks with
  | nil => rfl
  | cons c chunks ih =>
    cases c with
    | nil => exact ih
    | cons byte c => rfl

theorem ne_nil_of_dropWhile {chunks later : Chunks} {c : Bytes}
    (first : chunks.dropWhile List.isEmpty = c :: later) : c ≠ [] := by
  rintro rfl
  have head := head?_dropWhile_not isEmpty chunks
  rw [first] at head
  cases head

variable {r : BufReader}

theorem fill_size : r.fill.size = r.size := by
  unfold fill
  split <;> rfl

theorem fill_last : r.fill.last = r.last := by
  unfold fill
  split <;> rfl

theorem fill_content : r.fill.content = r.content := by
  have flat := flatten_dropWhile r.conn
  unfold fill
  split
  · rename_i none
    rw [none] at flat
    simp only [content, ← flat]
  · rename_i c conn first
    rw [first] at flat
    simp only [content, ← flat, flatten_cons, append_assoc]
    rw [← append_assoc (c.take _), take_append_drop]

/-- As long as bytes are coming, `fill` gets one at least. -/
theorem fill_grows (ready : r.Ready) (free : r.buf.length < r.size) (more : r.conn.flatten ≠ []) :
    r.fill.Ready ∧ r.buf.length < r.fill.buf.length := by
  have flat := flatten_dropWhile r.conn
  unfold fill
  split
  · rename_i none
    rw [none] at flat
    exact (more flat.symm).elim
  · rename_i c conn first
    have filled := length_pos_iff.mpr (ne_nil_of_dropWhile first)
    refine ⟨⟨ready.quiet, ?_⟩, ?_⟩
    · simp only [length_append, length_take]
      omega
    · simp only [length_append, length_take]
      omega

theorem fill_end (none : r.conn.flatten = []) :
    r.fill = { r with conn := [], err := some r.last } := by
  have flat := flatten_dropWhile r.conn
  rw [none] at flat
  unfold fill
  split
  · rfl
  · rename_i c conn first
    rw [first, flatten_cons] at flat
    exact (ne_nil_of_dropWhile first (append_eq_nil_iff.mp flat).1).elim

/-- Where the loop of `Peek` leaves the reader. -/
structure Filled (n : Nat) (r r' : BufReader) : Prop where
  size : r'.size = r.size
  last : r'.last = r.last
  content : r'.content = r.content
  room : r'.buf.length ≤ r'.size
  ends : r'.err = none ∧ (n ≤ r'.buf.length ∨ r'.buf.length = r'.size) ∨
    r'.err = some r'.last ∧ r'.conn.flatten = [] ∧ r'.buf.length < n ∧ r'.buf.length < r'.size

variable {n : Nat}

theorem fillTo_filled (ready : r.Ready) {fuel : Nat} (enough : r.size - r.buf.length < fuel) :
    Filled n r (fillTo n fuel r) := by
  induction fuel generalizing r with
  | zero => exact (Nat.not_lt_zero _ enough).elim
  | succ fuel ih =>
    unfold fillTo
    split
    · rename_i wants
      obtain ⟨short, free, -⟩ := wants
      by_cases more : r.conn.flatten = []
      · -- the error is kept, and the loop ends in its next round
        rw [fill_end more]
        have stays : fillTo n fuel { r with conn := [], err := some r.last } =
            { r with conn := [], err := some r.last } := by
          cases fuel with
          | zero => rfl
          | succ fuel =>
            rw [fillTo, if_neg]
            rintro ⟨-, -, quiet⟩
            cases quiet
        rw [stays]
        refine ⟨rfl, rfl, ?_, ready.room, .inr ⟨rfl, rfl, short, free⟩⟩
        simp only [BufReader.content, more, flatten_nil]
      · obtain ⟨readyNext, grows⟩ := fill_grows ready free more
        have next := ih readyNext (by rw [fill_size]; omega)
        exact ⟨next.size.trans fill_size, next.last.trans fill_last,
          next.content.trans fill_content, next.room, next.ends⟩
    · rename_i done
      refine ⟨rfl, rfl, rfl, ready.room, .inl ⟨ready.quiet, ?_⟩⟩
      by_contra neither
      rw [not_or] at neither
      have room := ready.room
      exact done ⟨by omega, by omega, ready.quiet⟩

theorem filled (ready : r.Ready) (n : Nat) : Filled n r (fillTo n (r.size + 1) r) :=
  fillTo_filled ready (by omega)

/-- Bytes that are there and fit the buffer are handed out, and stay in it. -/
theorem peek_of_content (ready : r.Ready) {p rest : Bytes} (all : r.content = p ++ rest)
    (fits : p.length ≤ r.size) :
    ∃ r', (peek p.length).run r = .ok p r' ∧ r'.Ready ∧ r'.size = r.size ∧ r'.last = r.last ∧
      r'.content = p ++ rest ∧ p.length ≤ r'.buf.length := by
  have filled := filled ready p.length
  have content := filled.content.trans all
  have size := filled.size
  obtain ⟨quiet, enough⟩ : (fillTo p.length (r.size + 1) r).err = none ∧
      p.length ≤ (fillTo p.length (r.size + 1) r).buf.length := by
    have length := congrArg length content
    rw [BufReader.content, length_append, length_append] at length
    rcases filled.ends with ⟨quiet, long | full⟩ | ⟨-, none, short, -⟩
    · exact ⟨quiet, long⟩
    · exact ⟨quiet, by omega⟩
    · rw [none, length_nil] at length
      omega
  have front : (fillTo p.length (r.size + 1) r).buf.take p.length = p := by
    have taken := congrArg (take p.length) content
    rwa [BufReader.content, take_append_of_le_length enough, take_left' rfl] at taken
  refine ⟨_, ?_, ⟨quiet, filled.room⟩, size, filled.last, content, enough⟩
  simp only [peek, Int.toNat_natCast]
  rw [if_neg (by omega), if_neg (by omega), if_neg (by omega), front]

/-- More than the buffer holds is not handed out, even if it is there. -/
theorem peek_of_size_lt (ready : r.Ready) (large : r.size < n) :
    ∃ r', (peek n).run r = .error (.err errBufferFull) r' ∧ r'.content = r.content ∧
      r'.size = r.size ∧ r'.buf.length ≤ r'.size := by
  have filled := filled ready n
  have size := filled.size
  refine ⟨_, ?_, filled.content, size, filled.room⟩
  simp only [peek, Int.toNat_natCast]
  rw [if_neg (by omega), if_pos (by omega)]

/-- Where the connection ends before, `Peek` returns what it ended with, and everything that came
is in the buffer. -/
theorem peek_of_short (ready : r.Ready) (fits : n ≤ r.size) (short : r.content.length < n) :
    ∃ r', (peek n).run r = .error (.err r.last) r' ∧ r'.Ready ∧ r'.size = r.size ∧
      r'.last = r.last ∧ r'.buf = r.content ∧ r'.conn.flatten = [] := by
  have filled := filled ready n
  have size := filled.size
  have content := filled.content
  have length := congrArg length content
  rw [BufReader.content, length_append] at length
  rcases filled.ends with ⟨-, long | full⟩ | ⟨kept, none, less, -⟩
  · omega
  · omega
  rw [BufReader.content, none, append_nil] at content
  refine ⟨{ fillTo n (r.size + 1) r with err := Option.none }, ?_, ⟨rfl, filled.room⟩, size,
    filled.last, content, none⟩
  simp only [peek, Int.toNat_natCast]
  rw [if_neg (by omega), if_neg (by omega), if_pos (by omega), kept, filled.last]
  rfl

theorem discard_of_buffered (buffered : n ≤ r.buf.length) :
    (discard n).run r = .ok () { r with buf := r.buf.drop n } := by
  cases n with
  | zero => rfl
  | succ n =>
    have filled : r.buf ≠ [] := by
      intro none
      rw [none, length_nil] at buffered
      omega
    simp only [discard, Int.toNat_natCast]
    rw [if_neg (by omega), if_neg (by omega)]
    simp only [discardLoop, if_neg filled, Nat.min_eq_right buffered, Nat.sub_self, if_true]

theorem discard_of_content (ready : r.Ready) {p rest : Bytes} (all : r.content = p ++ rest)
    (buffered : p.length ≤ r.buf.length) :
    ∃ r', (discard p.length).run r = .ok () r' ∧ r'.Ready ∧ r'.size = r.size ∧ r'.last = r.last ∧
      r'.content = rest := by
  refine ⟨_, discard_of_buffered buffered, ⟨ready.quiet, ?_⟩, rfl, rfl, ?_⟩
  · have room := ready.room
    simp only [length_drop]
    omega
  · have dropped := congrArg (drop p.length) all
    rwa [BufReader.content, drop_append_of_le_length buffered, drop_left' rfl] at dropped

/-- What is in the buffer is handed out without a `Read`. -/
theorem peek_of_buffered (buffered : n ≤ r.buf.length) (fits : n ≤ r.size) :
    (peek n).run r = .ok (r.buf.take n) r := by
  have stays : fillTo n (r.size + 1) r = r := by
    rw [fillTo, if_neg]
    rintro ⟨short, -⟩
    omega
  simp only [peek, Int.toNat_natCast, stays]
  rw [if_neg (by omega), if_neg (by omega), if_neg (by omega)]

section Drained

/-- Nothing more comes, and the buffer keeps at most what it had. -/
structure Drained (r : BufReader) (p : Bytes) : Prop where
  ended : r.conn.flatten = []
  buf : r.buf = p
  room : r.buf.length ≤ r.size

variable {p : Bytes}

theorem fillTo_drained (drained : r.Drained p) (n fuel : Nat) :
    (fillTo n fuel r).Drained p ∧ (fillTo n fuel r).size = r.size := by
  induction fuel generalizing r with
  | zero => exact ⟨drained, rfl⟩
  | succ fuel ih =>
    unfold fillTo
    split
    · rw [fill_end drained.ended]
      exact ih ⟨rfl, drained.buf, drained.room⟩
    · exact ⟨drained, rfl⟩

theorem peek_drained (drained : r.Drained p) (n : Int) : ∃ r', r'.Drained p ∧ r'.size = r.size ∧
      ((∃ b, (peek n).run r = .ok b r') ∨ ∃ cause, (peek n).run r = .error (.err cause) r') := by
  obtain ⟨drained', size⟩ := fillTo_drained drained n.toNat (r.size + 1)
  simp only [peek]
  split
  · exact ⟨r, drained, rfl, .inr ⟨_, rfl⟩⟩
  · split
    · exact ⟨_, drained', size, .inr ⟨_, rfl⟩⟩
    · split
      · exact ⟨{ fillTo n.toNat (r.size + 1) r with err := none },
          ⟨drained'.ended, drained'.buf, drained'.room⟩, size, .inr ⟨_, rfl⟩⟩
      · exact ⟨_, drained', size, .inl ⟨_, rfl⟩⟩

theorem peek_drained_short (drained : r.Drained p) (fits : n ≤ r.size) (short : p.length < n) :
    ∃ r' cause, r'.Drained p ∧ r'.size = r.size ∧ (peek n).run r = .error (.err cause) r' := by
  obtain ⟨drained', size⟩ := fillTo_drained drained n (r.size + 1)
  have length := congrArg length drained'.buf
  refine ⟨{ fillTo n (r.size + 1) r with err := none },
    (fillTo n (r.size + 1) r).err.getD errBufferFull,
    ⟨drained'.ended, drained'.buf, drained'.room⟩, size, ?_⟩
  simp only [peek, Int.toNat_natCast]
  rw [if_neg (by omega), if_neg (by omega), if_pos (by omega)]

theorem discardLoop_empty (ended : r.conn.flatten = []) (empty : r.buf = []) {fuel remain : Nat}
    (more : 0 < remain) : ∃ r', r'.Drained [] ∧ r'.size = r.size ∧
      discardLoop (fuel + 1) remain r = .error (.err r.last) r' := by
  refine ⟨{ r with buf := [], conn := [], err := none }, ⟨rfl, rfl, Nat.zero_le _⟩, rfl, ?_⟩
  simp only [discardLoop, empty, if_true, fill_end ended, length_nil, Nat.zero_min,
    Nat.sub_zero, drop_nil]
  rw [if_neg (by omega)]

theorem discard_drained (drained : r.Drained p) (n : Nat) :
    ∃ r', r'.Drained (p.drop n) ∧ r'.size = r.size ∧
      ((discard n).run r = .ok () r' ∨ ∃ cause, (discard n).run r = .error (.err cause) r') := by
  obtain ⟨ended, rfl, room⟩ := drained
  by_cases buffered : n ≤ r.buf.length
  · refine ⟨{ r with buf := r.buf.drop n }, ⟨ended, rfl, ?_⟩, rfl,
      .inl (discard_of_buffered buffered)⟩
    simp only [length_drop]
    omega
  · have none : r.buf.drop n = [] := drop_eq_nil_of_le (by omega)
    obtain ⟨m, rfl⟩ : ∃ m, n = m + 1 := ⟨n - 1, by omega⟩
    have run : (discard (m + 1 : Nat)).run r = discardLoop (m + 1) (m + 1) r := by
      simp only [discard, Int.toNat_natCast]
      rw [if_neg (by omega), if_neg (by omega)]
    rw [none, run]
    by_cases empty : r.buf = []
    · obtain ⟨r', drained', size, ran⟩ := discardLoop_empty ended empty (Nat.succ_pos m)
      exact ⟨r', drained', size, .inr ⟨_, ran⟩⟩
    · -- the buffer is used up in the first round
      have filled := length_pos_iff.mpr empty
      rw [discardLoop]
      simp only [if_neg empty, Nat.min_eq_left (show r.buf.length ≤ m + 1 by omega),
        drop_length]
      rw [if_neg (by omega)]
      split
      · exact ⟨{ r with buf := [], err := Option.none }, ⟨ended, rfl, Nat.zero_le _⟩, rfl,
          .inr ⟨_, rfl⟩⟩
      · obtain ⟨k, rfl⟩ : ∃ k, m = k + 1 := ⟨m - 1, by omega⟩
        obtain ⟨r', drained', size, ran⟩ := @discardLoop_empty { r with buf := [] } ended rfl k
          (k + 1 + 1 - r.buf.length) (by omega)
        exact ⟨r', drained', size, .inr ⟨_, ran⟩⟩

end Drained

end BufReader

end Jocko.Go
