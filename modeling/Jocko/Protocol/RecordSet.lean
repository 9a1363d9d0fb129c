import Jocko.Protocol.DataPlane
import Jocko.Protocol.Message
import Jocko.Protocol.Wire

namespace Jocko.Protocol

open Go ByteDecoder List

/-- A `protocol.MessageSet`, with an offset of type `int64`. -/
structure MessageSet where
  offset : Int
  size : Int32
  messages : List Message
  partialTrailingMessages : Bool

/-- `MessageSet.Encode` -/
def MessageSet.puts (ms : MessageSet) : List Put :=
  .int64 ms.offset :: .push .size :: (ms.messages.flatMap Message.puts ++ [.pop])

/-- The calls of `Message.Decode` between `Push` and `Pop`; the field `Crc` is not set. -/
def Message.decodeFields : Call ByteDecoder Message := do
  let magicByte ← int8
  let attributes ← int8
  let timestamp ← when (0 < magicByte) (do return timeOfMillis (← int64)) zeroTime
  let key ← bytes
  let value ← bytes
  return { crc := 0, magicByte, attributes, timestamp, key, value }

/-- `Message.Decode`; `crc` stands for `crc32.ChecksumIEEE`. -/
def Message.decode (crc : Bytes → UInt32) : Call ByteDecoder Message := do
  push .crc
  let m ← Message.decodeFields
  pop crc
  return m

/-- The loop of `MessageSet.Decode`, with the number of rounds it may take. -/
def MessageSet.decodeMessages (crc : Bytes → UInt32) :
    Nat → List Message → Call ByteDecoder (List Message × Bool)
  | 0, _ => stop .diverge
  | rounds + 1, messages => do
    let left ← remaining
    if left ≤ 0 then return (messages, false)
    else
      match ← attempt (Message.decode crc) with
      | .ok m => decodeMessages crc rounds (messages ++ [m])
      | .error cause =>
        -- the last message was cut off
        if .err cause = errInsufficientData then return (messages, true) else fail cause

/-- `MessageSet.Decode`. A message takes four bytes at least, so that there are fewer rounds than
bytes. -/
def MessageSet.decode (crc : Bytes → UInt32) : Call ByteDecoder MessageSet := do
  let offset ← int64
  let size ← int32
  let left ← remaining
  let (messages, partialTrailingMessages) ← decodeMessages crc (left.toNat + 1) []
  return { offset, size, messages, partialTrailingMessages }

variable {m : Message}

namespace Message

variable {crc : Bytes → UInt32}

/-- What a message can say: a time from the second format on, in whole milliseconds. -/
def Carried (m : Message) : Prop :=
  if 0 < m.magicByte then ∃ millis, m.timestamp = millis * 1000000 ∧ InInt64 m.timestamp
  else m.timestamp = zeroTime

/-- The bytes of a message: the checksum and what it is taken of. -/
def bytes (crc : Bytes → UInt32) (m : Message) : Bytes :=
  Frame.mark crc (rawOf m.body) .crc ++ rawOf m.body

theorem length_bytes (m : Message) : (m.bytes crc).length = m.length := by
  have width (p : Option Bytes) : (Put.bytes p).raw.length = 4 + (p.getD []).length :=
    Codec.length_raw_bytes p
  have eight (i : Int) : (Put.int64 i).raw.length = 8 := length_putUint ..
  have one (i : Int8) : (Put.int8 i).raw.length = 1 := rfl
  unfold bytes body length
  rw [length_append, Frame.length_mark]
  split <;> simp [width, eight, one] <;> omega

theorem writes_puts (messages : List Message) :
    Writes crc (messages.flatMap puts) (messages.flatMap (bytes crc)) := by
  induction messages with
  | nil => exact .nil
  | cons m messages ih =>
    have body : Writes crc m.body (rawOf m.body) := .of_plain m.body_plain
    have framed := Writes.frame .crc body ih
    simpa [puts, bytes, rawOf] using framed

/-- What a message says after its encoding: no checksum, and a time in whole milliseconds from
the second format on. -/
def stored (m : Message) : Message :=
  { m with
    crc := 0
    timestamp := if 0 < m.magicByte then timeOfMillis (m.timestamp.tdiv 1000000) else zeroTime }

/-- The time is one of `UnixNano`, and the first pass of the encoder accepts key and value. -/
structure Storable (m : Message) : Prop where
  time : 0 < m.magicByte → InInt64 m.timestamp
  key : (m.key.getD []).length ≤ maxInt32
  value : (m.value.getD []).length ≤ maxInt32

instance (m : Message) : Decidable m.Storable :=
  decidable_of_iff ((0 < m.magicByte → InInt64 m.timestamp) ∧
      (m.key.getD []).length ≤ maxInt32 ∧ (m.value.getD []).length ≤ maxInt32)
    ⟨fun ⟨time, key, value⟩ => ⟨time, key, value⟩, fun ⟨time, key, value⟩ => ⟨time, key, value⟩⟩

theorem stored_of_carried (carried : m.Carried) : m.stored = { m with crc := 0 } := by
  unfold Carried at carried
  unfold stored
  by_cases timed : 0 < m.magicByte
  · simp only [if_pos timed] at carried ⊢
    obtain ⟨millis, whole, -⟩ := carried
    have same : m.timestamp.tdiv 1000000 = millis := by
      rw [whole, Int.mul_tdiv_cancel _ (by decide)]
    rw [same, timeOfMillis_eq, whole]
  · simp only [if_neg timed] at carried ⊢
    rw [carried]

theorem Carried.storable (carried : m.Carried) (small : m.length ≤ maxInt32) : m.Storable := by
  unfold length at small
  refine ⟨fun timed => ?_, by omega, by omega⟩
  unfold Carried at carried
  rw [if_pos timed] at carried
  obtain ⟨-, -, range⟩ := carried
  exact range

theorem Storable.millis (storable : m.Storable) (timed : 0 < m.magicByte) :
    InInt64 (m.timestamp.tdiv 1000000) := by
  have range := storable.time timed
  have sign : Int.sign 1000000 = 1 := rfl
  unfold InInt64 at range ⊢
  rw [Int.tdiv_eq_ediv, sign]
  split <;> omega

theorem Storable.body_fits (storable : m.Storable) : ∀ op ∈ m.body, op.Fits := by
  have bound {p : Option Bytes} (few : (p.getD []).length ≤ maxInt32) : (Put.bytes p).Fits := few
  have key := bound storable.key
  have value := bound storable.value
  have byte (i : Int8) : (Put.int8 i).Fits := trivial
  have time (i : Int) : (Put.int64 i).Fits := trivial
  unfold body
  split <;> simp [key, value, byte, time]

theorem reads_time (storable : m.Storable) :
    ByteDecoder.Reads (when (0 < m.magicByte) (do return timeOfMillis (← int64)) zeroTime)
      (rawOf (if 0 < m.magicByte then [.int64 (m.timestamp.tdiv 1000000)] else []))
      m.stored.timestamp := by
  unfold stored ByteDecoder.when
  by_cases timed : 0 < m.magicByte
  · simp only [if_pos timed]
    have range := storable.millis timed
    have back := (ByteDecoder.Reads.int64 range.1 range.2).map timeOfMillis
    rwa [← append_nil (Put.raw _)] at back
  · simp only [if_neg timed]
    exact ByteDecoder.Reads.pure zeroTime

theorem raw_body (m : Message) : rawOf m.body =
    (Put.int8 m.magicByte).raw ++ ((Put.int8 m.attributes).raw ++
      (rawOf (if 0 < m.magicByte then [.int64 (m.timestamp.tdiv 1000000)] else []) ++
        ((Put.bytes m.key).raw ++ (Put.bytes m.value).raw))) := by
  simp [body]

theorem reads_fields (storable : m.Storable) :
    ByteDecoder.Reads decodeFields (rawOf m.body) m.stored := by
  rw [raw_body]
  exact (Reads.int8 m.magicByte).bind ((Reads.int8 m.attributes).bind
    ((reads_time storable).bind ((Reads.bytes storable.key).bind
      ((Reads.bytes storable.value).map _))))

/-- A message is read back, without the checksum that was stored. -/
theorem reads_bytes (storable : m.Storable) :
    ByteDecoder.Reads (decode crc) (m.bytes crc) m.stored := fun d rest here =>
  (((reads_fields storable).before rest).framed .crc) d here

end Message

namespace MessageSet

variable {crc : Bytes → UInt32}
variable {d : ByteDecoder} {rest : Bytes}

theorem decodeMessages_cons (storable : m.Storable) (done : List Message)
    (rounds : Nat) (here : d.Rest (m.bytes crc ++ rest)) :
    (decodeMessages crc (rounds + 1) done).run d =
      (decodeMessages crc rounds (done ++ [m.stored])).run (d.skip (m.bytes crc).length) := by
  have some : ¬ (((m.bytes crc ++ rest).length : Nat) : Int) ≤ 0 := by
    rw [length_append, Message.length_bytes]
    unfold Message.length
    omega
  rw [decodeMessages, bind_ok (remaining_run here), if_neg some,
    bind_ok (attempt_ok (Message.reads_bytes storable d _ here))]

theorem decodeMessages_end (done : List Message) (rounds : Nat)
    (here : d.Rest []) : (decodeMessages crc (rounds + 1) done).run d = .ok (done, false) d := by
  rw [decodeMessages, bind_ok (remaining_run here), if_pos (by simp)]
  rfl

section

variable {messages : List Message} (storable : ∀ m ∈ messages, m.Storable) (done : List Message)
include storable done

theorem decodeMessages_append (rounds : Nat)
    (here : d.Rest (messages.flatMap (Message.bytes crc) ++ rest)) :
    (decodeMessages crc (messages.length + rounds) done).run d =
      (decodeMessages crc rounds (done ++ messages.map Message.stored)).run
        (d.skip (messages.flatMap (Message.bytes crc)).length) := by
  induction messages generalizing done d with
  | nil => simp
  | cons m messages ih =>
    rw [flatMap_cons, append_assoc] at here
    rw [length_cons, Nat.add_right_comm,
      decodeMessages_cons (storable m (mem_cons_self ..)) done _ here,
      ih (fun m inside => storable m (mem_cons_of_mem _ inside)) _ here.skip]
    simp

theorem decodeMessages_run {rounds : Nat} (enough : messages.length < rounds)
    (here : d.Rest (messages.flatMap (Message.bytes crc))) :
    (decodeMessages crc rounds done).run d = .ok (done ++ messages.map Message.stored, false)
      (d.skip (messages.flatMap (Message.bytes crc)).length) := by
  obtain ⟨more, rfl⟩ : ∃ n, rounds = messages.length + (n + 1) :=
    ⟨rounds - messages.length - 1, by omega⟩
  rw [← append_nil (messages.flatMap _)] at here
  rw [decodeMessages_append storable done _ here, decodeMessages_end _ _ here.skip]

end

/-- The length of the encoded messages. -/
def contentLength (ms : MessageSet) : Nat := (ms.messages.map Message.length).sum

theorem length_content (messages : List Message) :
    (messages.flatMap (Message.bytes crc)).length = (messages.map Message.length).sum := by
  simp only [length_flatMap, Message.length_bytes]

variable {ms : MessageSet}

theorem puts_fit (storable : ∀ m ∈ ms.messages, m.Storable) : ∀ op ∈ ms.puts, op.Fits := by
  have inner : ∀ op ∈ ms.messages.flatMap Message.puts, op.Fits := by
    intro op inside
    obtain ⟨m, member, here⟩ := mem_flatMap.mp inside
    simp only [Message.puts, mem_cons, mem_append, not_mem_nil, or_false] at here
    rcases here with rfl | body | rfl
    · trivial
    · exact (storable m member).body_fits op body
    · trivial
  intro op inside
  simp only [puts, mem_cons, mem_append, not_mem_nil, or_false] at inside
  rcases inside with rfl | rfl | here | rfl
  · trivial
  · trivial
  · exact inner op here
  · trivial

/-- The head of a set: its offset, and the length of its messages in 32 bits. -/
def head (ms : MessageSet) : Bytes :=
  (Put.int64 ms.offset).raw ++ (Put.int32 (Int32.ofNat (ms.contentLength % 2 ^ 32))).raw

@[simp] theorem length_head (ms : MessageSet) : ms.head.length = 12 := by
  have eight : (Put.int64 ms.offset).raw.length = 8 := length_putUint ..
  have four (i : Int32) : (Put.int32 i).raw.length = 4 := Put.length_rawInt32 i
  simp only [head, length_append, eight, four]

/-- The bytes of a set. -/
def bytes (crc : Bytes → UInt32) (ms : MessageSet) : Bytes :=
  ms.head ++ ms.messages.flatMap (Message.bytes crc)

@[simp] theorem length_bytes (ms : MessageSet) : (ms.bytes crc).length = 12 + ms.contentLength := by
  rw [bytes, length_append, length_head, length_content]
  rfl

theorem writes_puts (ms : MessageSet) : Writes crc ms.puts (ms.bytes crc) := by
  have mark : Frame.mark crc (ms.messages.flatMap (Message.bytes crc)) .size =
      (Put.int32 (Int32.ofNat (ms.contentLength % 2 ^ 32))).raw := by
    have bound : ms.contentLength % 2 ^ 32 < 256 ^ 4 := by omega
    change putUint 4 (_ % 2 ^ 32) = Put.rawInt32 _
    rw [Reads.raw_length bound, length_content]
    rfl
  have writes : Writes crc ms.puts ((Put.int64 ms.offset).raw ++ (Frame.mark crc _ .size ++ _ ++ [])) :=
    .plain trivial (.frame .size (Message.writes_puts ms.messages) .nil)
  rwa [append_nil, mark, ← append_assoc] at writes

theorem encode_eq (storable : ∀ m ∈ ms.messages, m.Storable) :
    encodeWith crc ms.puts = .ok (ms.bytes crc) :=
  (encodeWith_writes ms.writes_puts (puts_fit storable)).2

theorem decode_head (offset : InInt64 ms.offset)
    (here : d.Rest (ms.head ++ rest)) :
    (decode crc).run d = (do
      let (messages, partialTrailingMessages) ← decodeMessages crc (rest.length + 1) []
      return ⟨ms.offset, Int32.ofNat (ms.contentLength % 2 ^ 32), messages,
        partialTrailingMessages⟩ : Call ByteDecoder MessageSet).run (d.skip 12) := by
  rw [head, append_assoc] at here
  have sized := here.skip
  have behind := sized.skip
  have place : (d.skip (Put.int64 ms.offset).raw.length).skip
      (Put.int32 (Int32.ofNat (ms.contentLength % 2 ^ 32))).raw.length = d.skip 12 := by
    rw [ByteDecoder.skip_skip, ← length_append, ← head, length_head]
  unfold decode
  rw [bind_ok (Reads.int64 offset.1 offset.2 _ _ here), bind_ok (Reads.int32 _ _ _ sized),
    bind_ok (remaining_run behind), place, Int.toNat_natCast]

theorem length_messages_le (messages : List Message) :
    messages.length ≤ (messages.flatMap (Message.bytes crc)).length := by
  have each := length_le_sum_of_one_le (messages.map Message.length) fun n inside => by
    obtain ⟨m, -, rfl⟩ := mem_map.mp inside
    unfold Message.length
    omega
  rwa [length_map, ← length_content] at each

/-- What comes back of a set whose messages can be encoded. -/
theorem decode_bytes (offset : InInt64 ms.offset)
    (storable : ∀ m ∈ ms.messages, m.Storable) (here : d.Rest (ms.bytes crc)) :
    (decode crc).run d = .ok ⟨ms.offset, Int32.ofNat (ms.contentLength % 2 ^ 32),
      ms.messages.map Message.stored, false⟩ (d.skip (ms.bytes crc).length) := by
  have behind := here.skip
  rw [length_head] at behind
  have few : ms.messages.length < (ms.messages.flatMap (Message.bytes crc)).length + 1 :=
    Nat.lt_succ_of_le (length_messages_le ms.messages)
  rw [decode_head offset here, bind_ok (decodeMessages_run storable [] few behind)]
  simp [ByteDecoder.skip_skip, bytes]

theorem decode_newDecoder {ms : MessageSet} (offset : InInt64 ms.offset)
    (storable : ∀ m ∈ ms.messages, m.Storable) : (decode crc).run (newDecoder (ms.bytes crc)) =
      .ok ⟨ms.offset, Int32.ofNat (ms.contentLength % 2 ^ 32), ms.messages.map Message.stored, false⟩
        ⟨ms.bytes crc, (ms.bytes crc).length, []⟩ := by
  rw [decode_bytes offset storable (rest_newDecoder _)]
  simp [newDecoder, ByteDecoder.skip]

/-- `back` is what `Decode` makes of the encoding of the set. -/
def Decodes (crc : Bytes → UInt32) (ms back : MessageSet) : Prop :=
  ∃ b, encodeWith crc ms.puts = .ok b ∧
    (decode crc).run (newDecoder b) = .ok back ⟨b, b.length, []⟩ ∧
    back.offset = ms.offset ∧ back.size.toInt = b.length - 12 ∧
    back.messages = ms.messages.map (fun m => { m with crc := 0 }) ∧
    back.partialTrailingMessages = false

/-- Record sets come back with their offset, their size and all their messages, whatever the
checksum is. -/
theorem survives (crc : Bytes → UInt32) {ms : MessageSet} (offset : InInt64 ms.offset)
    (carried : ∀ m ∈ ms.messages, m.Carried) (small : ms.contentLength ≤ maxInt32) :
    ∃ back, ms.Decodes crc back := by
  have storable : ∀ m ∈ ms.messages, m.Storable := fun m inside =>
    (carried m inside).storable
      (Nat.le_trans (le_sum_of_mem (mem_map_of_mem inside)) small)
  have same : ms.messages.map Message.stored = ms.messages.map fun m => { m with crc := 0 } :=
    map_congr_left fun m inside => Message.stored_of_carried (carried m inside)
  refine ⟨_, _, encode_eq storable, decode_newDecoder offset storable, rfl, ?_, same, rfl⟩
  have limit : ms.contentLength < 2 ^ 31 := by
    unfold maxInt32 at small
    omega
  change (Int32.ofNat (ms.contentLength % 2 ^ 32)).toInt = _
  rw [Nat.mod_eq_of_lt (by omega), Int32.toInt_ofNat_of_lt limit, length_bytes]
  omega

/-- An old message without a key, and one from before the epoch with a value of no bytes. -/
theorem survives_negative_time :
    ∃ back, Decodes checksumIEEE ⟨7, 0, [⟨5, 0, 1, zeroTime, none, some [1, 2]⟩,
      ⟨0, 1, 0, -1500000000, some [107], some []⟩], false⟩ back := by
  refine survives checksumIEEE (by decide) ?_ (by decide)
  intro m inside
  simp only [mem_cons, not_mem_nil, or_false] at inside
  rcases inside with rfl | rfl
  · rw [Message.Carried, if_neg (by decide)]
  · rw [Message.Carried, if_pos (by decide)]
    exact ⟨-1500, by decide, by decide⟩

/-- Of two messages with values of 2^30 bytes, `Size` is negative. -/
theorem size_of_long_values {p : Bytes} (long : p.length = 1073741824) :
    ∃ b back, encode (puts ⟨0, 0, [⟨0, 0, 0, zeroTime, none, some p⟩,
        ⟨0, 0, 0, zeroTime, none, some p⟩], false⟩) = .ok b ∧
      (decode checksumIEEE).run (newDecoder b) = .ok back ⟨b, b.length, []⟩ ∧
      b.length = 2147483688 ∧ back.size.toInt = -2147483620 := by
  let m : Message := ⟨0, 0, 0, zeroTime, none, some p⟩
  let ms : MessageSet := ⟨0, 0, [m, m], false⟩
  have length : m.length = 1073741838 := by
    change 6 + (4 + 0) + (4 + p.length) = _
    rw [long]
  have content : ms.contentLength = 2147483676 := by
    change m.length + (m.length + 0) = _
    rw [length]
  have same : ∀ n ∈ ms.messages, n = m := fun n inside => by simpa [ms] using inside
  have old : m.Carried := by
    rw [Message.Carried, if_neg (show ¬ (0 : Int8) < 0 by decide)]
  have zero : InInt64 0 := by decide
  have negative : (Int32.ofNat (2147483676 % 2 ^ 32)).toInt = -2147483620 := by decide
  have storable : ∀ n ∈ ms.messages, n.Storable := fun n inside => by
    rw [same n inside]
    exact old.storable (by rw [length]; decide)
  have decoded := @decode_newDecoder checksumIEEE _ (show InInt64 ms.offset from zero) storable
  rw [content] at decoded
  exact ⟨_, _, encode_eq storable, decoded, by rw [length_bytes, content], negative⟩

theorem size_overflows :
    ∃ b back, encode (puts ⟨0, 0, [⟨0, 0, 0, zeroTime, none, some (List.replicate 1073741824 0)⟩,
        ⟨0, 0, 0, zeroTime, none, some (List.replicate 1073741824 0)⟩], false⟩) = .ok b ∧
      (decode checksumIEEE).run (newDecoder b) = .ok back ⟨b, b.length, []⟩ ∧
      b.length = 2147483688 ∧ back.size.toInt = -2147483620 :=
  size_of_long_values length_replicate

end MessageSet

end Jocko.Protocol
