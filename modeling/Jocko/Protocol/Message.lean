import Jocko.Protocol.Encoder
import Jocko.Commitlog.MessageSet

namespace Jocko.Protocol

open Go List Option

/-- A `protocol.Message`. Its time is given in nanoseconds, as by `UnixNano`. -/
structure Message where
  crc : Int32
  magicByte : Int8
  attributes : Int8
  timestamp : Int
  key : Option Bytes
  value : Option Bytes

namespace Message

/-- The calls of `Message.Encode` between `Push` and `Pop`. -/
def body (m : Message) : List Put :=
  [.int8 m.magicByte, .int8 m.attributes] ++
    (if 0 < m.magicByte then [.int64 (m.timestamp.tdiv 1000000)] else []) ++
    [.bytes m.key, .bytes m.value]

/-- The calls of `Message.Encode`. -/
def puts (m : Message) : List Put := .push .crc :: (m.body ++ [.pop])

/-- The length of an encoded message. -/
def length (m : Message) : Nat :=
  (if 0 < m.magicByte then 14 else 6) + (4 + (m.key.getD []).length) +
    (4 + (m.value.getD []).length)

/-- The accessors of `commitlog.Message` find the fields of the message in its bytes. -/
structure Reads (m : Message) (b : Bytes) : Prop where
  key : Commitlog.Message.key b = .ok m.key
  value : Commitlog.Message.value b = .ok m.value
  size : Commitlog.Message.size b = .ok b.length
  magicByte : Commitlog.Message.magicByte b = .ok m.magicByte.toInt
  attributes : Commitlog.Message.attributes b = .ok m.attributes.toInt
  timestamp : 0 < m.magicByte →
    Commitlog.Message.timestamp b = .ok (m.timestamp.tdiv 1000000)

/-- The length field of a byte string, as a number of 32 bits. -/
def lengthField (p : Option Bytes) : Nat :=
  match p with
  | none => 4294967295
  | some p => p.length

/-- What the length field says, -1 for null. -/
def fieldSize (p : Option Bytes) : Int :=
  match p with
  | none => -1
  | some p => p.length

variable {p : Option Bytes}

section

variable (small : (p.getD []).length < 2147483648)
include small

theorem raw_bytes :
    (Put.bytes p).raw = putUint 4 (lengthField p) ++ p.getD [] := by
  cases p with
  | none => rfl
  | some p =>
    have same : (Int32.ofNat p.length).toUInt32.toNat = p.length := by
      have bound : p.length < 2147483648 := small
      rw [Int32.toUInt32_ofNat', UInt32.toNat_ofNat']
      exact Nat.mod_eq_of_lt (by omega)
    rw [Put.raw, Put.rawInt32, same]
    rfl

theorem int32_lengthField :
    int32 (lengthField p) = fieldSize p := by
  cases p with
  | none => decide
  | some p =>
    have bound : p.length < 2147483648 := small
    exact int32_of_lt (by simp only [lengthField]; omega) (by simp only [lengthField]; omega)

theorem lengthField_lt : lengthField p < 4294967296 := by
  cases p with
  | none => decide
  | some p =>
    have bound : p.length < 2147483648 := small
    simp only [lengthField]
    omega

end

/-- Everything before the key: the checksum, the version, the attributes and the time. -/
def header (m : Message) (crc : Nat) : Bytes :=
  putUint 4 crc ++ [m.magicByte.toUInt8, m.attributes.toUInt8] ++
    (if 0 < m.magicByte then putUint 8 (m.timestamp.tdiv 1000000 % 2 ^ 64).toNat else [])

/-- Where the key starts. -/
def keyStart (m : Message) : Nat := if 0 < m.magicByte then 14 else 6

theorem length_header (m : Message) (crc : Nat) : (m.header crc).length = m.keyStart := by
  unfold header keyStart
  split <;> simp

theorem int8_toUInt8 (i : Int8) :
    (if i.toUInt8.toNat < 128 then (i.toUInt8.toNat : Int) else i.toUInt8.toNat - 256) =
      i.toInt := by
  have signed : i.toInt = if 2 * i.toUInt8.toNat < 2 ^ 8 then (i.toUInt8.toNat : Int)
      else i.toUInt8.toNat - (2 ^ 8 : Nat) := BitVec.toInt_eq_toNat_cond i.toBitVec
  rw [signed]
  split <;> split <;> omega

theorem body_plain (m : Message) : ∀ op ∈ m.body, op.Plain := by
  unfold body
  split <;> simp [Put.Plain]

variable {m : Message}

theorem flatMap_body (small : m.length < 2147483648) (crc : Nat) :
    putUint 4 crc ++ m.body.flatMap Put.raw =
      m.header crc ++ (putUint 4 (lengthField m.key) ++ m.key.getD []) ++
        (putUint 4 (lengthField m.value) ++ m.value.getD []) := by
  have key : (Put.bytes m.key).raw = _ := raw_bytes (by unfold length at small; omega)
  have value : (Put.bytes m.value).raw = _ := raw_bytes (by unfold length at small; omega)
  unfold body header
  split <;> simp [key, value, Put.raw_int8, Put.raw_int64]

theorem body_fits (small : m.length < 2147483648) : ∀ op ∈ m.body, op.Fits := by
  have bound {p : Option Bytes} (few : (p.getD []).length < 2147483648) : (Put.bytes p).Fits := by
    simp only [Put.Fits, maxInt32]
    omega
  have key : (Put.bytes m.key).Fits := bound (by unfold length at small; omega)
  have value : (Put.bytes m.value).Fits := bound (by unfold length at small; omega)
  have byte (i : Int8) : (Put.int8 i).Fits := trivial
  have time (i : Int) : (Put.int64 i).Fits := trivial
  unfold body
  split <;> simp [key, value, byte, time]

theorem encode_puts (small : m.length < 2147483648) :
    ∃ crc, encode m.puts = .ok (m.header crc ++ (putUint 4 (lengthField m.key) ++ m.key.getD []) ++
      (putUint 4 (lengthField m.value) ++ m.value.getD [])) := by
  refine ⟨(checksumIEEE (m.body.flatMap Put.raw)).toNat, ?_⟩
  rw [← flatMap_body small]
  exact encode_checked m.body_plain (body_fits small)

theorem read_field {b pre rest : Bytes} {n : Nat} (bound : n < 4294967296)
    (layout : b = pre ++ (putUint 4 n ++ rest)) :
    Commitlog.slice b pre.length b.length = .ok (putUint 4 n ++ rest) ∧
      Commitlog.encodingUint32 (putUint 4 n ++ rest) = .ok n := by
  have inside : 0 ≤ (pre.length : Int) ∧ (pre.length : Int) ≤ b.length ∧
      (b.length : Int) ≤ b.length := by
    rw [layout, length_append]
    omega
  have long : ¬ (putUint 4 n ++ rest).length < 4 := by simp
  constructor
  · rw [Commitlog.slice, if_pos inside, Int.toNat_natCast, Int.toNat_natCast, take_length,
      layout, drop_left']
    rfl
  · have front : (putUint 4 n ++ rest).take 4 = putUint 4 n := take_left' (length_putUint 4 n)
    rw [Commitlog.encodingUint32, if_neg long, front, getUint_putUint]
    exact congrArg Except.ok (Nat.mod_eq_of_lt bound)

section

variable {m : Message} {b : Bytes} {crc : Nat}

/-- The bytes are those of the message. -/
def Layout (m : Message) (crc : Nat) (b : Bytes) : Prop :=
  b = m.header crc ++ (putUint 4 (lengthField m.key) ++ m.key.getD []) ++
    (putUint 4 (lengthField m.value) ++ m.value.getD [])

section

variable (layout : m.Layout crc b)
include layout

theorem Layout.magicByte :
    Commitlog.Message.magicByte b = .ok m.magicByte.toInt := by
  have byte : b[4]? = some m.magicByte.toUInt8 := by
    rw [layout]
    simp [header]
  rw [Commitlog.Message.magicByte, byte, ← int8_toUInt8]

theorem Layout.attributes :
    Commitlog.Message.attributes b = .ok m.attributes.toInt := by
  have byte : b[5]? = some m.attributes.toUInt8 := by
    rw [layout]
    simp [header, getElem?_append]
  rw [Commitlog.Message.attributes, byte, ← int8_toUInt8]

theorem Layout.length : b.length = m.length := by
  rw [layout]
  simp only [length_append, length_header, length_putUint, Message.length, keyStart]

theorem Layout.timestamp (version : 0 < m.magicByte)
    (range : -2 ^ 63 ≤ m.timestamp ∧ m.timestamp < 2 ^ 63) :
    Commitlog.Message.timestamp b = .ok (m.timestamp.tdiv 1000000) := by
  have positive : ¬ m.magicByte.toInt = 0 := by
    rw [Int8.lt_iff_toInt_lt] at version
    exact Int.ne_of_gt version
  have front : ((b.take b.length).drop 6).take 8 =
      putUint 8 (m.timestamp.tdiv 1000000 % 2 ^ 64).toNat := by
    have split : b = (putUint 4 crc ++ [m.magicByte.toUInt8, m.attributes.toUInt8]) ++
        (putUint 8 (m.timestamp.tdiv 1000000 % 2 ^ 64).toNat ++
          ((putUint 4 (lengthField m.key) ++ m.key.getD []) ++
            (putUint 4 (lengthField m.value) ++ m.value.getD []))) := by
      rw [layout]
      simp only [header, version, ↓reduceIte, append_assoc]
    rw [take_length, split, drop_left' (by simp), take_left' (by simp)]
  have total := layout.length
  have long : 14 ≤ b.length := by
    simp only [Message.length, version, ↓reduceIte] at total
    omega
  have inside : 0 ≤ (6 : Int) ∧ (6 : Int) ≤ b.length ∧ (b.length : Int) ≤ b.length := by omega
  have enough : ¬ ((b.take b.length).drop 6).length < 8 := by
    rw [take_length, length_drop]
    omega
  have millis : -2 ^ 63 ≤ m.timestamp.tdiv 1000000 ∧ m.timestamp.tdiv 1000000 < 2 ^ 63 := by
    have sign : Int.sign 1000000 = 1 := rfl
    rw [Int.tdiv_eq_ediv, sign]
    split <;> omega
  have value : ((getUint (putUint 8 (m.timestamp.tdiv 1000000 % 2 ^ 64).toNat) : Nat) : Int).bmod
      (2 ^ 64) = m.timestamp.tdiv 1000000 := by
    rw [getUint_putUint]
    simp only [Int.bmod]
    omega
  unfold Commitlog.Message.timestamp
  rw [layout.magicByte]
  change (if m.magicByte.toInt = 0 then _ else _) = _
  rw [if_neg positive, Commitlog.slice, if_pos inside]
  change (if ((b.take b.length).drop 6).length < 8 then _ else _) = _
  rw [if_neg enough]
  change Except.ok (((getUint (((b.take b.length).drop 6).take 8) : Nat) : Int).bmod (2 ^ 64)) = _
  rw [front, value]

theorem Layout.split :
    b = m.header crc ++ (putUint 4 (lengthField m.key) ++
      (m.key.getD [] ++ (putUint 4 (lengthField m.value) ++ m.value.getD []))) := by
  rw [layout]
  simp only [append_assoc]

theorem Layout.keyOffsets (version : 0 ≤ m.magicByte)
    (small : m.length < 2147483648) : Commitlog.Message.keyOffsets b =
      .ok (m.keyStart, m.keyStart + 4 + fieldSize m.key, fieldSize m.key) := by
  have keySmall : (m.key.getD []).length < 2147483648 := by
    unfold Message.length at small
    omega
  have start : (if m.magicByte.toInt = 0 then (6 : Int) else 14) = m.keyStart := by
    rw [Int8.le_iff_toInt_le] at version
    have zero : (0 : Int8).toInt = 0 := rfl
    simp only [keyStart, Int8.lt_iff_toInt_lt]
    split <;> split <;> omega
  obtain ⟨sliced, read⟩ := read_field (lengthField_lt keySmall) layout.split
  rw [length_header] at sliced
  have stop : int32 (m.keyStart + 4 + fieldSize m.key) = m.keyStart + 4 + fieldSize m.key := by
    have header : m.keyStart ≤ 14 := by
      unfold keyStart
      split <;> omega
    have fits : (m.keyStart : Int) + 4 + fieldSize m.key < 2147483648 ∧ -1 ≤ fieldSize m.key := by
      cases here : m.key with
      | none =>
        simp only [fieldSize]
        omega
      | some p =>
        simp only [Message.length, here, getD_some] at small
        simp only [fieldSize, keyStart]
        split at small <;> rename_i version <;> simp only [version, ↓reduceIte] <;> omega
    exact int32_of_lt (by omega) (by omega)
  simp only [Commitlog.Message.keyOffsets, layout.magicByte, bind, Except.bind, start, sliced, read,
    pure, Except.pure, int32_lengthField keySmall, stop]

end

theorem slice_middle {b pre middle rest : Bytes} (layout : b = pre ++ (middle ++ rest)) :
    Commitlog.slice b pre.length (pre.length + middle.length : Nat) = .ok middle := by
  have inside : 0 ≤ (pre.length : Int) ∧ (pre.length : Int) ≤ (pre.length + middle.length : Nat) ∧
      ((pre.length + middle.length : Nat) : Int) ≤ b.length := by
    rw [layout]
    simp only [length_append]
    omega
  rw [Commitlog.slice, if_pos inside, Int.toNat_natCast, Int.toNat_natCast, layout,
    ← append_assoc, take_left' (by simp), drop_left' rfl]

theorem read_bytes {b pre rest : Bytes} (small : b.length < 2147483648)
    (layout : b = pre ++ (putUint 4 (lengthField p) ++ (p.getD [] ++ rest))) :
    (do if fieldSize p = -1 then return none
        else return some (← Commitlog.slice b (int32 (pre.length + 4))
          (pre.length + 4 + fieldSize p))) = (Except.ok p : Except Stop (Option Bytes)) := by
  cases p with
  | none => simp only [fieldSize, ↓reduceIte, pure, Except.pure]
  | some p =>
    have split : b = (pre ++ putUint 4 p.length) ++ (p ++ rest) := by
      rw [layout]
      simp only [lengthField, getD_some, append_assoc]
    have sliced := slice_middle split
    have total : b.length = pre.length + 4 + p.length + rest.length := by
      rw [split]
      simp only [length_append, length_putUint]
      omega
    have start : int32 (pre.length + 4) = ((pre ++ putUint 4 p.length).length : Nat) := by
      rw [int32_of_lt (by omega) (by omega), length_append, length_putUint]
      rfl
    have stop : (pre.length : Int) + 4 + fieldSize (some p) =
        ((pre ++ putUint 4 p.length).length + p.length : Nat) := by
      simp only [fieldSize, length_append, length_putUint]
      omega
    have present : fieldSize (some p) ≠ -1 := by
      simp only [fieldSize]
      omega
    rw [if_neg present, start, stop, sliced]
    rfl

section

variable (layout : m.Layout crc b) (version : 0 ≤ m.magicByte) (small : m.length < 2147483648)
include layout version small

theorem Layout.key : Commitlog.Message.key b = .ok m.key := by
  have read := read_bytes (by rw [layout.length]; exact small) layout.split
  rw [length_header] at read
  unfold Commitlog.Message.key
  rw [layout.keyOffsets version small]
  exact read

/-- With a key, the length field of the value is where the key ends. -/
theorem Layout.valueOffsets {p : Bytes} (keyed : m.key = some p) :
    Commitlog.Message.valueOffsets b = .ok ((m.keyStart + 4 + p.length : Nat),
      (m.keyStart + 4 + p.length : Nat) + 4 + fieldSize m.value, fieldSize m.value) := by
  have split : b = (m.header crc ++ putUint 4 p.length ++ p) ++
      (putUint 4 (lengthField m.value) ++ m.value.getD []) := by
    rw [layout.split, keyed]
    simp only [lengthField, getD_some, append_assoc]
  have place : (m.header crc ++ putUint 4 p.length ++ p).length = m.keyStart + 4 + p.length := by
    simp only [length_append, length_header, length_putUint]
  have total : m.length = m.keyStart + (4 + p.length) + (4 + (m.value.getD []).length) := by
    simp only [Message.length, keyStart, keyed, getD_some]
  have valueSmall : (m.value.getD []).length < 2147483648 := by omega
  have size : -1 ≤ fieldSize m.value ∧ fieldSize m.value ≤ (m.value.getD []).length := by
    cases m.value <;> simp [fieldSize]
  obtain ⟨sliced, read⟩ := read_field (lengthField_lt valueSmall) split
  have start : (m.keyStart : Int) + 4 + fieldSize (some p) =
      ((m.keyStart + 4 + p.length : Nat) : Int) := by
    simp only [fieldSize]
    omega
  have stop := int32_of_lt (x := ((m.keyStart + 4 + p.length : Nat) : Int) + 4 + fieldSize m.value)
    (by omega) (by omega)
  rw [place] at sliced
  simp only [Commitlog.Message.valueOffsets, layout.keyOffsets version small, keyed, start, bind,
    Except.bind, sliced, read, pure, Except.pure, int32_lengthField valueSmall, stop]

theorem Layout.value {p : Bytes} (keyed : m.key = some p) :
    Commitlog.Message.value b = .ok m.value := by
  have split : b = (m.header crc ++ putUint 4 p.length ++ p) ++
      (putUint 4 (lengthField m.value) ++ (m.value.getD [] ++ [])) := by
    rw [layout.split, keyed]
    simp only [lengthField, getD_some, append_assoc, append_nil]
  have place : (m.header crc ++ putUint 4 p.length ++ p).length = m.keyStart + 4 + p.length := by
    simp only [length_append, length_header, length_putUint]
  have read := read_bytes (by rw [layout.length]; exact small) split
  rw [place] at read
  unfold Commitlog.Message.value
  rw [layout.valueOffsets version small keyed]
  exact read

/-- Without a key, the length field of the value is looked for one byte too early. -/
theorem Layout.valueOffsets_unkeyed (unkeyed : m.key = none) {size : Int}
    (skewed : int32 (4278190080 + lengthField m.value / 256 : Nat) = size) :
    Commitlog.Message.valueOffsets b =
      .ok ((m.keyStart + 3 : Nat), int32 ((m.keyStart + 3 : Nat) + 4 + size), size) := by
  have split : b = (m.header crc ++ putUint 3 16777215) ++
      (255 :: (putUint 4 (lengthField m.value) ++ m.value.getD [])) := by
    rw [layout.split, unkeyed]
    simp only [lengthField, getD_none, nil_append, append_assoc,
      append_cancel_left_eq]
    rfl
  have valueSmall : (m.value.getD []).length < 2147483648 := by
    unfold Message.length at small
    omega
  have bound := lengthField_lt valueSmall
  have front : 255 :: (putUint 4 (lengthField m.value) ++ m.value.getD []) =
      putUint 4 (4278190080 + lengthField m.value / 256) ++
        (UInt8.ofNat (lengthField m.value) :: m.value.getD []) := by
    have head := putUint_cons 3 255 (lengthField m.value / 256) (by omega)
    have tail : putUint 4 (lengthField m.value) =
        putUint 3 (lengthField m.value / 256) ++ [UInt8.ofNat (lengthField m.value)] := rfl
    rw [show 4278190080 = 255 * 256 ^ 3 from rfl, head, tail, append_assoc]
    rfl
  rw [front] at split
  obtain ⟨sliced, read⟩ := read_field (by omega) split
  have place : (m.header crc ++ putUint 3 16777215).length = m.keyStart + 3 := by
    simp only [length_append, length_header, length_putUint]
  have start : (m.keyStart : Int) + 4 + fieldSize none = ((m.keyStart + 3 : Nat) : Int) := by
    simp only [fieldSize]
    omega
  rw [place] at sliced
  simp only [Commitlog.Message.valueOffsets, layout.keyOffsets version small, unkeyed, start, bind,
    Except.bind, sliced, read, pure, Except.pure, skewed]

end

theorem add_field {n : Nat} (small : n + (p.getD []).length < 2147483648) :
    (if fieldSize p = -1 then (n : Int) else int32 (n + fieldSize p)) =
      (n + (p.getD []).length : Nat) := by
  cases p with
  | none => simp only [fieldSize, ↓reduceIte, getD_none, length_nil, Nat.add_zero]
  | some p =>
    rw [getD_some] at small ⊢
    have present : fieldSize (some p) ≠ -1 := by
      simp only [fieldSize]
      omega
    rw [if_neg present]
    simp only [fieldSize]
    rw [int32_of_lt (by omega) (by omega)]
    omega

section

variable (layout : m.Layout crc b) (version : 0 ≤ m.magicByte) (small : m.length < 2147483648)
include layout version small

theorem Layout.size {start stop : Int}
    (value : Commitlog.Message.valueOffsets b = .ok (start, stop, fieldSize m.value)) :
    Commitlog.Message.size b = .ok b.length := by
  have header : (if 0 < m.magicByte.toInt then (18 : Int) else 10) = (m.keyStart + 4 : Nat) := by
    simp only [keyStart, Int8.lt_iff_toInt_lt]
    have zero : (0 : Int8).toInt = 0 := rfl
    split <;> split <;> omega
  have total : m.length = m.keyStart + (4 + (m.key.getD []).length) +
      (4 + (m.value.getD []).length) := rfl
  simp only [Commitlog.Message.size, layout.magicByte, layout.keyOffsets version small, value, bind,
    Except.bind, pure, Except.pure, header, layout.length]
  rw [add_field (by omega)]
  have width : int32 (((m.keyStart + 4 + (m.key.getD []).length : Nat) : Int) + 4) =
      (m.keyStart + 4 + (m.key.getD []).length + 4 : Nat) := by
    rw [int32_of_lt (by omega) (by omega)]
    omega
  have whole : m.keyStart + 4 + (m.key.getD []).length + 4 + (m.value.getD []).length = m.length := by
    omega
  rw [width, add_field (by omega), whole]

theorem Layout.value_unkeyed (unkeyed : m.key = none) {p : Bytes} (valued : m.value = some p) :
    Commitlog.Message.value b = .error (.panic "slice bounds out of range") := by
  have long : p.length < 2147483648 := by
    have total : m.length = m.keyStart + (4 + (m.key.getD []).length) + (4 + p.length) := by
      simp only [Message.length, keyStart, valued, getD_some]
    omega
  have header : m.keyStart ≤ 14 := by
    unfold keyStart
    split <;> omega
  have size : int32 (4278190080 + p.length / 256 : Nat) = -16777216 + (p.length / 256 : Nat) := by
    simp only [int32, Int.bmod]
    omega
  have skewed : int32 (4278190080 + lengthField m.value / 256 : Nat) =
      -16777216 + (p.length / 256 : Nat) := by
    have field : lengthField m.value = p.length := by
      rw [valued]
      rfl
    rw [field, size]
  have offsets := layout.valueOffsets_unkeyed version small unkeyed skewed
  have start : int32 (((m.keyStart + 3 : Nat) : Int) + 4) = (m.keyStart + 3 : Nat) + 4 :=
    int32_of_lt (by omega) (by omega)
  have stop : int32 (((m.keyStart + 3 : Nat) : Int) + 4 + (-16777216 + (p.length / 256 : Nat))) =
      (m.keyStart + 3 : Nat) + 4 + (-16777216 + (p.length / 256 : Nat)) :=
    int32_of_lt (by omega) (by omega)
  have other : ¬ -16777216 + ((p.length / 256 : Nat) : Int) = -1 := by omega
  have backwards : ¬ (0 ≤ ((m.keyStart + 3 : Nat) : Int) + 4 ∧
      ((m.keyStart + 3 : Nat) : Int) + 4 ≤
        (m.keyStart + 3 : Nat) + 4 + (-16777216 + (p.length / 256 : Nat)) ∧
      ((m.keyStart + 3 : Nat) : Int) + 4 + (-16777216 + (p.length / 256 : Nat)) ≤ b.length) := by
    omega
  have sliced : Commitlog.slice b ((m.keyStart + 3 : Nat) + 4)
      ((m.keyStart + 3 : Nat) + 4 + (-16777216 + (p.length / 256 : Nat))) =
        .error (.panic "slice bounds out of range") := by
    rw [Commitlog.slice, if_neg backwards]
  unfold Commitlog.Message.value
  rw [offsets, stop]
  change (if (-16777216 + ((p.length / 256 : Nat) : Int)) = -1 then _ else _) = _
  rw [if_neg other, start, sliced]
  rfl

/-- The value is found behind a key, and a null value behind a null key too: the byte before its
length field is one of the key's. -/
theorem Layout.value_readable (fine : m.key = none → m.value = none) :
    Commitlog.Message.value b = .ok m.value ∧
      ∃ start stop, Commitlog.Message.valueOffsets b = .ok (start, stop, fieldSize m.value) := by
  cases keyed : m.key with
  | some p => exact ⟨layout.value version small keyed, _, _, layout.valueOffsets version small keyed⟩
  | none =>
    have null : m.value = none := fine keyed
    have skewed : int32 (4278190080 + lengthField m.value / 256 : Nat) = -1 := by
      rw [null]
      rfl
    have offsets := layout.valueOffsets_unkeyed version small keyed skewed
    refine ⟨?_, _, _, by rw [offsets, null]; rfl⟩
    simp only [Commitlog.Message.value, offsets, null, bind, Except.bind, ↓reduceIte, pure,
      Except.pure]

end

/-- The log reads back what the protocol writes, unless there is a value without a key. -/
theorem encode_reads_iff {m : Message} (version : 0 ≤ m.magicByte) (small : m.length < 2147483648)
    (range : 0 < m.magicByte → -2 ^ 63 ≤ m.timestamp ∧ m.timestamp < 2 ^ 63) :
    ∃ b, encode m.puts = .ok b ∧ b.length = m.length ∧
      (m.Reads b ↔ (m.key = none → m.value = none)) := by
  obtain ⟨crc, encoded⟩ := encode_puts small
  have layout : m.Layout crc _ := rfl
  refine ⟨_, encoded, layout.length, fun reads unkeyed => ?_, fun fine => ?_⟩
  · cases valued : m.value with
    | none => rfl
    | some p =>
      have stuck := reads.value
      rw [layout.value_unkeyed version small unkeyed valued] at stuck
      cases stuck
  · obtain ⟨value, start, stop, offsets⟩ := layout.value_readable version small fine
    exact ⟨layout.key version small, value, layout.size version small offsets, layout.magicByte,
      layout.attributes, fun later => layout.timestamp later (range later)⟩

end

/-- A message of the second format with a key and no value. -/
theorem encode_reads_tombstone :
    let m : Message := ⟨0, 1, 0, 1500000, some [107], none⟩
    ∃ b, encode m.puts = .ok b ∧ b.length = 23 ∧ m.Reads b := by
  obtain ⟨b, encoded, length, reads⟩ := @encode_reads_iff ⟨0, 1, 0, 1500000, some [107], none⟩
    (by decide) (by decide) (by decide)
  exact ⟨b, encoded, length, reads.mpr nofun⟩

/-- A message with a value and no key makes `Value` panic. -/
theorem value_without_key :
    let m : Message := ⟨0, 0, 0, 0, none, some [118]⟩
    ((encode m.puts).toOption.map Commitlog.Message.value) =
      some (.error (.panic "slice bounds out of range")) := by
  decide +kernel

end Message

end Jocko.Protocol
