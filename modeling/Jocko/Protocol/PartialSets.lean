import Jocko.Protocol.RecordSet
import Jocko.Protocol.Truncation

namespace Jocko.Protocol

open Go ByteDecoder List

variable {α β : Type}

/-- On a front part of the bytes, the decoder asks for more. -/
def AsksForMore (dec : Call ByteDecoder α) (p : Bytes) : Prop :=
  ∀ (d : ByteDecoder) (q : Bytes), d.Rest q → q <+: p → q.length < p.length →
    ∃ d', dec.run d = .error errInsufficientData d'

namespace AsksForMore

variable {dec : Call ByteDecoder α} {p p' : Bytes}

theorem nil : AsksForMore dec [] := fun _ _ _ _ short => (Nat.not_lt_zero _ short).elim

theorem needing {n : Int} (all : (p.length : Int) ≤ n) :
    AsksForMore (need n >>= fun _ => dec) p := by
  intro d q here front short
  exact ⟨_, bind_error (Tears.need_short here (by omega))⟩

/-- A cut in the first half is met by the first decoder, a later one by the second. -/
theorem bind {next : α → Call ByteDecoder β} {x : α} (first : AsksForMore dec p)
    (reads : Reads dec p x) (rest : AsksForMore (next x) p') :
    AsksForMore (dec >>= next) (p ++ p') := by
  intro d q here front short
  rcases Tears.split front with ⟨inside, within⟩ | ⟨q', rfl, later⟩
  · obtain ⟨d', stopped⟩ := first d q here within inside
    exact ⟨d', bind_error stopped⟩
  · rw [bind_ok (reads d q' here)]
    refine rest _ q' here.skip later ?_
    rw [length_append, length_append] at short
    omega

theorem map (asks : AsksForMore dec p) (f : α → β) :
    AsksForMore (dec >>= fun x => Pure.pure (f x)) p := by
  intro d q here front short
  obtain ⟨d', stopped⟩ := asks d q here front short
  exact ⟨d', bind_error stopped⟩

theorem int32 (i : Int32) : AsksForMore int32 (Put.int32 i).raw :=
  needing (by rw [show (Put.int32 i).raw.length = 4 from Put.length_rawInt32 i]; rfl)

theorem int64 (i : Int) : AsksForMore int64 (Put.int64 i).raw :=
  needing (by rw [show (Put.int64 i).raw.length = 8 from length_putUint ..]; rfl)

theorem bytes {p : Option Bytes} (short : (p.getD []).length ≤ maxInt32) :
    AsksForMore bytes (Put.bytes p).raw := by
  cases p with
  | none =>
    have asks : AsksForMore ByteDecoder.bytes ((Put.int32 (-1)).raw ++ []) :=
      (int32 (-1)).bind (Reads.int32 (-1)) nil
    rwa [append_nil] at asks
  | some p =>
    have bound : p.length ≤ maxInt32 := short
    have length : (Int32.ofNat p.length).toInt = p.length :=
      Int32.toInt_ofNat_of_lt (by unfold maxInt32 at bound; omega)
    refine (int32 (Int32.ofNat p.length)).bind (Reads.int32 _) ?_
    rw [length, if_neg (by omega), if_neg (by omega)]
    cases p with
    | nil => exact nil
    | cons c p =>
      rw [if_neg (by rw [length_cons]; omega)]
      exact needing (Int.le_refl _)

end AsksForMore

variable {d : ByteDecoder} {q : Bytes}

namespace Message

variable {crc : Bytes → UInt32} {m : Message}

/-- The fields behind the two bytes that are read without a check. -/
theorem asks_tail (storable : m.Storable) (magicByte attributes : Int8) :
    AsksForMore (do
      let timestamp ← when (0 < m.magicByte) (do return timeOfMillis (← int64)) zeroTime
      let key ← ByteDecoder.bytes
      let value ← ByteDecoder.bytes
      return { crc := 0, magicByte, attributes, timestamp, key, value } : Call ByteDecoder Message)
      (rawOf (if 0 < m.magicByte then [.int64 (m.timestamp.tdiv 1000000)] else []) ++
        ((Put.bytes m.key).raw ++ (Put.bytes m.value).raw)) := by
  have time : AsksForMore (when (0 < m.magicByte) (do return timeOfMillis (← int64)) zeroTime)
      (rawOf (if 0 < m.magicByte then [.int64 (m.timestamp.tdiv 1000000)] else [])) := by
    unfold ByteDecoder.when
    by_cases timed : 0 < m.magicByte
    · simp only [if_pos timed]
      have asks := (AsksForMore.int64 (m.timestamp.tdiv 1000000)).map timeOfMillis
      rwa [← append_nil (Put.raw _)] at asks
    · simp only [if_neg timed]
      exact AsksForMore.nil
  exact time.bind (reads_time storable) ((AsksForMore.bytes storable.key).bind
    (Reads.bytes storable.key) ((AsksForMore.bytes storable.value).map _))

theorem int8_none (here : d.Rest []) : int8.run d = .error (.panic "index out of range") d := by
  have length := here.length
  rw [length_nil] at length
  refine bind_error ?_
  simp only [ByteDecoder.fixed, if_neg (show ¬ d.off + 1 ≤ d.b.length by omega)]

theorem decodeFields_front (storable : m.Storable) (here : d.Rest q)
    (front : q <+: rawOf m.body) (short : q.length < (rawOf m.body).length) :
    ∃ d', decodeFields.run d = .error
      (if q.length ≤ 1 then .panic "index out of range" else errInsufficientData) d' := by
  have one (i : Int8) : (Put.int8 i).raw.length = 1 := rfl
  rw [raw_body] at front short
  unfold decodeFields
  rcases Tears.split front with ⟨inside, -⟩ | ⟨q₁, rfl, behind⟩
  · rw [one] at inside
    obtain rfl : q = [] := length_eq_zero_iff.mp (by omega)
    exact ⟨d, bind_error (int8_none here)⟩
  rw [bind_ok (Reads.int8 m.magicByte d q₁ here)]
  have next := here.skip
  rcases Tears.split behind with ⟨inside, -⟩ | ⟨q₂, rfl, tail⟩
  · rw [one] at inside
    obtain rfl : q₁ = [] := length_eq_zero_iff.mp (by omega)
    exact ⟨_, bind_error (int8_none next)⟩
  rw [bind_ok (Reads.int8 m.attributes _ q₂ next)]
  have long : ¬ ((Put.int8 m.magicByte).raw ++ ((Put.int8 m.attributes).raw ++ q₂)).length ≤ 1 := by
    simp only [length_append, one]
    omega
  rw [if_neg long]
  refine asks_tail storable m.magicByte m.attributes _ q₂ next.skip tail ?_
  rw [length_append, length_append, length_append, length_append] at short
  omega

/-- A cut right behind the checksum, or behind the next byte, is out of range; everywhere else in
a message it is noticed. -/
theorem decode_front (storable : m.Storable) (here : d.Rest q)
    (front : q <+: m.bytes crc) (short : q.length < m.length) : ∃ d', (decode crc).run d = .error
      (if q.length = 4 ∨ q.length = 5 then .panic "index out of range" else errInsufficientData)
      d' := by
  have four : (Frame.mark crc (rawOf m.body) .crc).length = 4 := Frame.length_mark ..
  have total : m.length = 4 + (rawOf m.body).length := by
    rw [← @length_bytes crc m, bytes, length_append, four]
  rw [bytes] at front
  rcases Tears.split front with ⟨inside, -⟩ | ⟨q, rfl, later⟩
  · rw [four] at inside
    rw [if_neg (by omega)]
    exact ⟨_, bind_error ((bind_ok (rfl : _ = Result.ok d.off d)).trans
      (bind_error (Tears.need_short here (by omega))))⟩
  · rw [length_append, four] at short ⊢
    have opened := push_run .crc here (by rw [length_append, four]; omega)
    have inner := here.skip
    rw [four] at inner
    obtain ⟨d', stopped⟩ := decodeFields_front storable
      (show ByteDecoder.Rest { d with off := d.off + 4, stack := (.crc, d.off) :: d.stack } q
        from inner) later (by omega)
    have same : (4 + q.length = 4 ∨ 4 + q.length = 5) ↔ q.length ≤ 1 := by omega
    refine ⟨d', ?_⟩
    rw [decode, bind_ok opened, bind_error stopped]
    simp only [same]

end Message

namespace MessageSet

variable {crc : Bytes → UInt32}

/-- The messages whose encodings lie within the given number of bytes. -/
def whole (room : Nat) : List Message → List Message
  | [] => []
  | m :: messages =>
    if m.length ≤ room then m :: whole (room - m.length) messages else []

/-- How many bytes there are of the message that does not lie within them. -/
def torn (room : Nat) : List Message → Nat
  | [] => 0
  | m :: messages => if m.length ≤ room then torn (room - m.length) messages else room

theorem decodeMessages_torn {m : Message} (storable : m.Storable) (done : List Message)
    (rounds : Nat) (here : d.Rest q) (front : q <+: m.bytes crc)
    (short : q.length < m.length) (some : q ≠ []) :
    ∃ d', (decodeMessages crc (rounds + 1) done).run d =
      if q.length = 4 ∨ q.length = 5 then .error (.panic "index out of range") d'
      else .ok (done, true) d' := by
  have left : ¬ ((q.length : Nat) : Int) ≤ 0 := by
    have := length_pos_iff.mpr some
    omega
  obtain ⟨d', stopped⟩ := Message.decode_front storable here front short
  refine ⟨d', ?_⟩
  rw [decodeMessages, bind_ok (remaining_run here), if_neg left]
  split
  · rename_i unchecked
    rw [if_pos unchecked] at stopped
    refine bind_error ?_
    simp only [Go.attempt, stopped]
  · rename_i checked
    rw [if_neg checked] at stopped
    rw [bind_ok (attempt_err stopped)]
    rfl

variable {rounds : Nat}

theorem decodeMessages_front {messages : List Message} (storable : ∀ m ∈ messages, m.Storable)
    (done : List Message) (here : d.Rest q)
    (front : q <+: messages.flatMap (Message.bytes crc)) (enough : q.length < rounds) :
    ∃ d', (decodeMessages crc rounds done).run d =
      if torn q.length messages = 4 ∨ torn q.length messages = 5 then
        .error (.panic "index out of range") d'
      else .ok (done ++ (whole q.length messages).map Message.stored,
        decide (torn q.length messages ≠ 0)) d' := by
  induction messages generalizing done d q rounds with
  | nil =>
    obtain rfl : q = [] := prefix_nil.mp front
    obtain ⟨rounds, rfl⟩ : ∃ n, rounds = n + 1 := ⟨rounds - 1, by omega⟩
    refine ⟨d, ?_⟩
    rw [decodeMessages_end done rounds here]
    simp [torn, whole]
  | cons m messages ih =>
    obtain ⟨rounds, rfl⟩ : ∃ n, rounds = n + 1 := ⟨rounds - 1, by omega⟩
    have first := storable m (mem_cons_self ..)
    have later : ∀ m ∈ messages, m.Storable := fun m inside =>
      storable m (mem_cons_of_mem _ inside)
    rw [flatMap_cons] at front
    rcases Tears.split front with ⟨inside, within⟩ | ⟨q', rfl, behind⟩
    · rw [Message.length_bytes] at inside
      simp only [torn, whole, if_neg (Nat.not_le.mpr inside), map_nil, append_nil]
      cases q with
      | nil =>
        refine ⟨d, ?_⟩
        rw [decodeMessages_end done rounds here]
        rfl
      | cons c q =>
        exact decodeMessages_torn first done rounds here within inside (by simp)
    · have width := @Message.length_bytes crc m
      have fits : m.length ≤ (m.bytes crc ++ q').length := by
        rw [length_append]
        omega
      have rest : (m.bytes crc ++ q').length - m.length = q'.length := by
        rw [length_append]
        omega
      have positive : 0 < m.length := by
        unfold Message.length
        omega
      rw [length_append] at enough
      simp only [torn, whole, if_pos fits, rest]
      rw [decodeMessages_cons first done rounds here]
      obtain ⟨d', ran⟩ := ih later (done ++ [m.stored]) here.skip behind
        (show q'.length < rounds by omega)
      refine ⟨d', ran.trans ?_⟩
      rw [map_cons, append_assoc, singleton_append]

/-- The offset and the times of a set are of their types in the source. -/
structure Typed (ms : MessageSet) : Prop where
  offset : InInt64 ms.offset
  times : ∀ m ∈ ms.messages, 0 < m.magicByte → InInt64 m.timestamp

variable {ms : MessageSet}

theorem Typed.encoded {b : Bytes} (typed : ms.Typed) (encoded : encodeWith crc ms.puts = .ok b) :
    (∀ m ∈ ms.messages, m.Storable) ∧ b = ms.bytes crc := by
  have fits := fits_of_encodeWith encoded
  have storable : ∀ m ∈ ms.messages, m.Storable := by
    intro m inside
    have each : ∀ op ∈ m.body, op.Fits := by
      intro op member
      refine fits op ?_
      simp only [puts, mem_cons, mem_append, mem_flatMap]
      exact .inr (.inr (.inl ⟨m, inside, by simp [Message.puts, member]⟩))
    have key : (Put.bytes m.key).Fits := each _ (by simp [Message.body])
    have value : (Put.bytes m.value).Fits := each _ (by simp [Message.body])
    exact ⟨typed.times m inside, key, value⟩
  refine ⟨storable, ?_⟩
  rw [encode_eq storable] at encoded
  cases encoded
  rfl

/-- What `Decode` should make of a front part of the encoding. -/
def YieldsWhole (crc : Bytes → UInt32) (ms : MessageSet) (p : Bytes) : Prop :=
  ∃ back d', (decode crc).run (newDecoder p) = .ok back d' ∧ back.offset = ms.offset ∧
    back.messages = (whole (p.length - 12) ms.messages).map Message.stored ∧
    (back.partialTrailingMessages = true ↔ torn (p.length - 12) ms.messages ≠ 0)

/-- A front part of a set yields its whole messages, unless the cut is right behind a checksum
or one byte further. -/
theorem yieldsWhole_iff (crc : Bytes → UInt32) {ms : MessageSet} {b p : Bytes} (typed : ms.Typed)
    (encoded : encodeWith crc ms.puts = .ok b) (front : p <+: b) (long : 12 ≤ p.length) :
    ms.YieldsWhole crc p ↔
      torn (p.length - 12) ms.messages ≠ 4 ∧ torn (p.length - 12) ms.messages ≠ 5 := by
  obtain ⟨storable, rfl⟩ := typed.encoded encoded
  rcases Tears.split front with ⟨inside, -⟩ | ⟨q, rfl, content⟩
  · rw [length_head] at inside
    omega
  have here := rest_newDecoder (ms.head ++ q)
  have behind := here.skip
  have room : (ms.head ++ q).length - 12 = q.length := by
    rw [length_append, length_head]
    omega
  rw [length_head] at behind
  obtain ⟨d', loop⟩ := decodeMessages_front storable [] behind content (Nat.lt_succ_self q.length)
  unfold YieldsWhole
  rw [decode_head typed.offset here, room]
  by_cases unchecked : torn q.length ms.messages = 4 ∨ torn q.length ms.messages = 5
  · rw [if_pos unchecked] at loop
    refine iff_of_false ?_ (by omega)
    rintro ⟨back, d'', ran, -⟩
    cases ran.symm.trans (bind_error loop)
  · rw [if_neg unchecked] at loop
    refine iff_of_true ?_ (by omega)
    exact ⟨_, d', bind_ok loop, rfl, rfl, by simp⟩

/-- The first message of two is read, the second is cut inside its value. -/
theorem yieldsWhole_second_torn :
    let ms : MessageSet := ⟨7, 0, [⟨0, 0, 0, zeroTime, none, some [1]⟩,
      ⟨0, 1, 0, 1500000, some [107], some [2, 3]⟩], false⟩
    ∃ b, encode ms.puts = .ok b ∧ ms.YieldsWhole checksumIEEE (b.take 51) := by
  intro ms
  have typed : ms.Typed := ⟨by decide, by decide⟩
  have encoded : encode ms.puts = .ok (ms.bytes checksumIEEE) := encode_eq (by decide)
  refine ⟨_, encoded, (yieldsWhole_iff checksumIEEE typed encoded (List.take_prefix ..) ?_).mpr ?_⟩
  · rw [length_take, length_bytes]
    decide
  · rw [length_take, length_bytes]
    decide

/-- A set whose only message is cut right behind its checksum: the next byte is out of range. -/
theorem decode_behind_checksum :
    let ms : MessageSet := ⟨0, 0, [⟨0, 0, 0, zeroTime, none, none⟩], false⟩
    ms.Typed ∧ ∃ b, encode ms.puts = .ok b ∧ b.length = 26 ∧
      ((decode checksumIEEE).run (newDecoder (b.take 16))).stopped =
        some (.panic "index out of range") := by
  intro ms
  have length : ms.contentLength = 14 := by decide
  refine ⟨⟨by decide, by decide⟩, ms.bytes checksumIEEE, encode_eq (by decide), ?_, ?_⟩
  · exact (length_bytes ms).trans (congrArg (12 + ·) length)
  · decide +kernel

/-- Successive calls of `Decode` give back the sets, each with its own messages, and take as many
bytes behind each head as its size says. -/
def Successive (crc : Bytes → UInt32) : List MessageSet → ByteDecoder → Prop
  | [], _ => True
  | ms :: sets, d => ∃ back d', (decode crc).run d = .ok back d' ∧ back.offset = ms.offset ∧
      back.messages = ms.messages.map Message.stored ∧ back.partialTrailingMessages = false ∧
      d'.b = d.b ∧ (d'.off : Int) = d.off + 12 + back.size.toInt ∧ Successive crc sets d'

theorem decodeMessages_keeps {done messages : List Message} {cut : Bool}
    {d' : ByteDecoder} (ran : (decodeMessages crc rounds done).run d = .ok (messages, cut) d') :
    done <+: messages := by
  induction rounds generalizing done d with
  | zero => cases ran
  | succ rounds ih =>
    obtain ⟨left, d₁, remaining, rest⟩ := bind_eq_ok ran
    split at rest
    · cases rest
      exact prefix_rfl
    obtain ⟨outcome, d₂, attempted, rest⟩ := bind_eq_ok rest
    cases outcome with
    | ok m => exact (prefix_append ..).trans (ih rest)
    | error cause =>
      simp only at rest
      split at rest
      · cases rest
        exact prefix_rfl
      · cases rest

/-- Where bytes are left, the loop goes on: it reads one more message or finds it cut. -/
theorem decodeMessages_left {done messages : List Message} {cut : Bool}
    {d' : ByteDecoder} (here : d.Rest q) (some : q ≠ [])
    (ran : (decodeMessages crc rounds done).run d = .ok (messages, cut) d') :
    cut = true ∨ done.length < messages.length := by
  cases rounds with
  | zero => cases ran
  | succ rounds =>
    have left : ¬ ((q.length : Nat) : Int) ≤ 0 := by
      have := length_pos_iff.mpr some
      omega
    rw [decodeMessages, bind_ok (remaining_run here), if_neg left] at ran
    obtain ⟨outcome, d₂, attempted, rest⟩ := bind_eq_ok ran
    cases outcome with
    | ok m =>
      have longer := (decodeMessages_keeps rest).length_le
      rw [length_append, length_singleton] at longer
      exact .inr (by omega)
    | error cause =>
      simp only at rest
      split at rest
      · cases rest
        exact .inl rfl
      · cases rest

/-- A single set is read back, and its size is the number of its bytes up to 2^31. -/
theorem successive_one (offset : InInt64 ms.offset) (storable : ∀ m ∈ ms.messages, m.Storable) :
    Successive crc [ms] (newDecoder (ms.bytes crc)) ↔ ms.contentLength ≤ maxInt32 := by
  have bound : ms.contentLength ≤ maxInt32 ↔ ms.contentLength < 2 ^ 31 := by
    unfold maxInt32
    omega
  unfold Successive
  rw [decode_newDecoder offset storable, bound]
  constructor
  · rintro ⟨back, d', ran, -, -, -, -, moved, -⟩
    cases ran
    have size := (Int32.ofNat (ms.contentLength % 2 ^ 32)).toInt_lt
    simp only [length_bytes, newDecoder] at moved
    omega
  · intro small
    have size : (Int32.ofNat (ms.contentLength % 2 ^ 32)).toInt = ms.contentLength := by
      rw [Nat.mod_eq_of_lt (by omega), Int32.toInt_ofNat_of_lt small]
    refine ⟨_, _, rfl, rfl, rfl, rfl, rfl, ?_, trivial⟩
    rw [size, length_bytes]
    simp only [newDecoder]
    omega

/-- With bytes behind a set, its `Decode` goes on into them. -/
theorem successive_two (offset : InInt64 ms.offset)
    (storable : ∀ m ∈ ms.messages, m.Storable) {sets : List MessageSet} {more : Bytes}
    (some : more ≠ []) : ¬ Successive crc (ms :: sets) (newDecoder (ms.bytes crc ++ more)) := by
  rintro ⟨back, d', ran, -, same, complete, -⟩
  have shape : ms.bytes crc ++ more =
      ms.head ++ (ms.messages.flatMap (Message.bytes crc) ++ more) := append_assoc ..
  rw [shape] at ran
  have here := rest_newDecoder (ms.head ++ (ms.messages.flatMap (Message.bytes crc) ++ more))
  have behind := here.skip
  rw [length_head] at behind
  have enough : ms.messages.length ≤
      (ms.messages.flatMap (Message.bytes crc) ++ more).length + 1 := by
    have few := @length_messages_le crc ms.messages
    rw [length_append]
    omega
  obtain ⟨extra, rounds⟩ := Nat.exists_eq_add_of_le enough
  rw [decode_head offset here] at ran
  obtain ⟨⟨messages, cut⟩, d₁, loop, done⟩ := bind_eq_ok ran
  cases done
  rw [rounds, decodeMessages_append storable [] extra behind, nil_append] at loop
  rcases decodeMessages_left behind.skip some loop with torn | longer
  · exact Bool.noConfusion (torn.symm.trans complete)
  · have length : messages.length = (ms.messages.map Message.stored).length :=
      congrArg length same
    omega

/-- The size in a head says where the next set begins only if `Decode` meets no second set, and
if it is the number of bytes. -/
theorem successive_iff (crc : Bytes → UInt32) {sets : List MessageSet} {bs : List Bytes}
    (some : sets ≠ []) (typed : ∀ ms ∈ sets, ms.Typed)
    (encoded : List.Forall₂ (fun ms b => encodeWith crc ms.puts = .ok b) sets bs) :
    Successive crc sets (newDecoder bs.flatten) ↔
      ∃ ms, sets = [ms] ∧ ms.contentLength ≤ maxInt32 := by
  cases encoded with
  | nil => exact (some rfl).elim
  | @cons ms b sets bs first rest =>
    obtain ⟨storable, rfl⟩ := (typed ms (mem_cons_self ..)).encoded first
    have offset := (typed ms (mem_cons_self ..)).offset
    cases rest with
    | nil =>
      rw [flatten_cons, flatten_nil, append_nil]
      exact (successive_one offset storable).trans (by simp)
    | @cons ms' b' sets bs second _ =>
      obtain ⟨-, rfl⟩ := (typed ms' (by simp)).encoded second
      refine iff_of_false (successive_two offset storable ?_) (by simp)
      intro empty
      have length := congrArg length empty
      simp at length

/-- A set of two messages by itself. -/
theorem successive_single :
    let ms : MessageSet := ⟨7, 0, [⟨0, 0, 0, zeroTime, none, some [1]⟩,
      ⟨0, 1, 0, 1500000, some [107], some [2, 3]⟩], false⟩
    ∃ b, encode ms.puts = .ok b ∧ Successive checksumIEEE [ms] (newDecoder [b].flatten) := by
  intro ms
  have typed : ∀ set ∈ [ms], set.Typed := by
    intro set inside
    rw [mem_singleton.mp inside]
    exact ⟨by decide, by decide⟩
  have encoded : encode ms.puts = .ok (ms.bytes checksumIEEE) := encode_eq (by decide)
  refine ⟨_, encoded, (successive_iff checksumIEEE (by simp) typed ?_).mpr ⟨ms, rfl, by decide⟩⟩
  exact .cons encoded .nil

/-- Two sets of one message: the second head is taken for a message of the first set, which is
cut off, and nothing is left for the second `Decode`. -/
theorem decode_across_sets :
    let m : Message := ⟨0, 0, 0, zeroTime, none, none⟩
    let first : MessageSet := ⟨0, 0, [m], false⟩
    let second : MessageSet := ⟨1, 0, [m], false⟩
    ∃ b b', encode first.puts = .ok b ∧ encode second.puts = .ok b' ∧
      ¬ Successive checksumIEEE [first, second] (newDecoder (b ++ b')) ∧
      let result := (decode checksumIEEE).run (newDecoder (b ++ b'))
      result.returned.map (fun back => (back.size, back.partialTrailingMessages)) =
        some (14, true) ∧
      result.state.off = 52 := by
  intro m first second
  refine ⟨_, second.bytes checksumIEEE, encode_eq (by decide), encode_eq (by decide),
    successive_two (by decide) (by decide) ?_, by decide +kernel, by decide +kernel⟩
  intro empty
  have length := congrArg length empty
  simp at length

end MessageSet

end Jocko.Protocol
