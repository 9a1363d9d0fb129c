import Jocko.Protocol.Decoder

namespace Jocko.Protocol

open Go ByteDecoder
open List hiding get

/-- A call on a `PacketDecoder`. -/
inductive Get where
  | bool
  | int8
  | int16
  | int32
  | int64
  | arrayLength
  | bytes
  | string
  | nullableString
  | stringArray
  | int32Array
  | int64Array
  | push (f : Frame)
  | pop

/-- What a call on a `PacketDecoder` returns beside the error. -/
inductive Value where
  | bool (b : Bool)
  | int8 (i : Int8)
  | int16 (i : Int16)
  | int32 (i : Int32)
  | int64 (i : Int)
  | arrayLength (n : Nat)
  | bytes (p : Option Bytes)
  | string (s : Str)
  | nullableString (s : Option Str)
  | stringArray (ss : List Str)
  | int32Array (is : List Int32)
  | int64Array (is : List Int)
  | none

/-- A call on a `ByteDecoder`; `crc` stands for `crc32.ChecksumIEEE`. -/
def Get.call (crc : Bytes → UInt32) : Get → Call ByteDecoder Value
  | bool => do return .bool (← ByteDecoder.bool)
  | int8 => do return .int8 (← ByteDecoder.int8)
  | int16 => do return .int16 (← ByteDecoder.int16)
  | int32 => do return .int32 (← ByteDecoder.int32)
  | int64 => do return .int64 (← ByteDecoder.int64)
  | arrayLength => do return .arrayLength (← ByteDecoder.arrayLength)
  | bytes => do return .bytes (← ByteDecoder.bytes)
  | string => do return .string (← ByteDecoder.string)
  | nullableString => do return .nullableString (← ByteDecoder.nullableString)
  | stringArray => do return .stringArray (← ByteDecoder.stringArray)
  | int32Array => do return .int32Array (← ByteDecoder.int32Array)
  | int64Array => do return .int64Array (← ByteDecoder.int64Array)
  | push f => do
    ByteDecoder.push f
    return .none
  | pop => do
    ByteDecoder.pop crc
    return .none

/-- Calls one after the other, up to the first error. -/
def calls (crc : Bytes → UInt32) : List Get → Call ByteDecoder (List Value)
  | [] => return []
  | get :: gets => do
    let value ← get.call crc
    let values ← calls crc gets
    return value :: values

/-- A value that is stored by one call and read by another of the same type. A string that may be
null can also be read by `String`. -/
inductive Item where
  | bool (b : Bool)
  | int8 (i : Int8)
  | int16 (i : Int16)
  | int32 (i : Int32)
  | int64 (i : Int64)
  | arrayLength (n : Nat)
  | bytes (p : Option Bytes)
  | string (s : Str)
  | nullableString (s : Option Str)
  | nullAsEmpty (s : Option Str)
  | stringArray (ss : List Str)
  | int32Array (is : List Int32)
  | int64Array (is : List Int64)
  | push (f : Frame)
  | pop

variable {item : Item}

namespace Item

def put : Item → Put
  | bool b => .bool b
  | int8 i => .int8 i
  | int16 i => .int16 i
  | int32 i => .int32 i
  | int64 i => .int64 i.toInt
  | arrayLength n => .arrayLength n
  | bytes p => .bytes p
  | string s => .string s
  | nullableString s => .nullableString s
  | nullAsEmpty s => .nullableString s
  | stringArray ss => .stringArray ss
  | int32Array is => .int32Array is
  | int64Array is => .int64Array (is.map Int64.toInt)
  | push f => .push f
  | pop => .pop

def get : Item → Get
  | bool _ => .bool
  | int8 _ => .int8
  | int16 _ => .int16
  | int32 _ => .int32
  | int64 _ => .int64
  | arrayLength _ => .arrayLength
  | bytes _ => .bytes
  | string _ => .string
  | nullableString _ => .nullableString
  | nullAsEmpty _ => .string
  | stringArray _ => .stringArray
  | int32Array _ => .int32Array
  | int64Array _ => .int64Array
  | push f => .push f
  | pop => .pop

def value : Item → Value
  | bool b => .bool b
  | int8 i => .int8 i
  | int16 i => .int16 i
  | int32 i => .int32 i
  | int64 i => .int64 i.toInt
  | arrayLength n => .arrayLength n
  | bytes p => .bytes p
  | string s => .string s
  | nullableString s => .nullableString s
  | nullAsEmpty s => .string (s.getD [])
  | stringArray ss => .stringArray ss
  | int32Array is => .int32Array is
  | int64Array is => .int64Array (is.map Int64.toInt)
  | push _ => .none
  | pop => .none

/-- The lengths that the format allows. -/
def Limits : Item → Prop
  | arrayLength n => n ≤ maxArrayLength
  | bytes p => (p.getD []).length ≤ maxInt32
  | string s => s.length ≤ maxInt16
  | nullableString s => (s.getD []).length ≤ maxInt16
  | nullAsEmpty s => (s.getD []).length ≤ maxInt16
  | stringArray ss => ss.length ≤ maxArrayLength ∧ ∀ s ∈ ss, s.length ≤ maxInt16
  | int32Array is => is.length ≤ maxArrayLength
  | int64Array is => is.length ≤ maxArrayLength
  | _ => True

/-- How many bytes have to follow. -/
def demand : Item → Nat
  | arrayLength n => n
  | _ => 0

theorem fits (limits : item.Limits) : item.put.Fits := by
  have bound : maxArrayLength ≤ maxInt32 := by decide
  cases item with
  | arrayLength n =>
    change (n : Int) ≤ maxInt32
    have few : n ≤ maxArrayLength := limits
    omega
  | stringArray ss => exact ⟨Nat.le_trans limits.1 bound, limits.2⟩
  | int32Array is => exact Nat.le_trans limits bound
  | int64Array is =>
    change (is.map Int64.toInt).length ≤ maxInt32
    rw [length_map]
    exact Nat.le_trans limits bound
  | bytes p | string s | nullableString s | nullAsEmpty s => exact limits
  | bool b | int8 i | int16 i | int32 i | int64 i | push f | pop => trivial

end Item

/-- The number of bytes that the items take. -/
def breadth (items : List Item) : Nat := (items.map fun item => item.put.width).sum

/-- Each raw array length is at most the number of bytes behind it, of which `after` come behind
all items. -/
def Room (after : Nat) : List Item → Prop
  | [] => True
  | item :: items => item.demand ≤ breadth items + after ∧ Room after items

theorem room_append {after : Nat} {first second : List Item} :
    Room after (first ++ second) ↔ Room (breadth second + after) first ∧ Room after second := by
  induction first with
  | nil => simp [Room]
  | cons item first ih =>
    have total : breadth (first ++ second) + after = breadth first + (breadth second + after) := by
      simp only [breadth, map_append, sum_append]
      omega
    simp only [cons_append, Room, ih, total, and_assoc]

section Reading

variable {α β : Type} {crc : Bytes → UInt32} {p q rest : Bytes}

/-- The decoder reads `value` off `p` if `rest` follows. -/
def ReadsBefore (dec : Call ByteDecoder α) (p : Bytes) (value : α) (rest : Bytes) : Prop :=
  ∀ d : ByteDecoder, d.Rest (p ++ rest) → dec.run d = .ok value (d.skip p.length)

theorem ReadsBefore.bind {dec : Call ByteDecoder α} {next : α → Call ByteDecoder β} {x : α} {y : β}
    (reads : ReadsBefore dec p x (q ++ rest)) (readsNext : ReadsBefore (next x) q y rest) :
    ReadsBefore (dec >>= next) (p ++ q) y rest := by
  intro d here
  rw [append_assoc] at here
  rw [bind_ok (reads d here), readsNext _ here.skip, skip_skip, length_append]

theorem ReadsBefore.map {dec : Call ByteDecoder α} {x : α} (reads : ReadsBefore dec p x rest)
    (f : α → β) : ReadsBefore (dec >>= fun x => pure (f x)) p (f x) rest := by
  intro d here
  rw [bind_ok (reads d here)]
  rfl

theorem ByteDecoder.Reads.before {dec : Call ByteDecoder α} {value : α} (reads : Reads dec p value)
    (rest : Bytes) : ReadsBefore dec p value rest := fun d here => reads d rest here

theorem ByteDecoder.Reads.string_null : Reads ByteDecoder.string (Put.nullableString none).raw [] := by
  have reads : Reads ByteDecoder.string ((Put.int16 (-1)).raw ++ []) [] := by
    refine (Reads.int16 (-1)).bind ?_
    rw [if_neg (by decide), if_pos (by decide)]
    exact Reads.pure []
  rwa [append_nil] at reads

theorem ByteDecoder.Reads.int64_toInt (i : Int64) :
    Reads ByteDecoder.int64 (Put.int64 i.toInt).raw i.toInt :=
  Reads.int64 i.le_toInt i.toInt_lt

theorem Item.reads (plain : item.put.Plain) (limits : item.Limits)
    (enough : item.demand ≤ rest.length) :
    ReadsBefore (item.get.call crc) item.put.raw item.value rest := by
  have bound : maxArrayLength < 256 ^ 4 := by decide
  cases item with
  | bool b => exact ((Reads.bool b).before rest).map _
  | int8 i => exact ((Reads.int8 i).before rest).map _
  | int16 i => exact ((Reads.int16 i).before rest).map _
  | int32 i => exact ((Reads.int32 i).before rest).map _
  | int64 i => exact ((Reads.int64_toInt i).before rest).map _
  | arrayLength n =>
    have number : ReadsBefore ByteDecoder.arrayLength (Put.arrayLength n).raw n rest := by
      intro d here
      exact Reads.arrayLength_run limits here enough
    exact number.map _
  | bytes p => exact ((Reads.bytes limits).before rest).map _
  | string s => exact ((Reads.string limits).before rest).map _
  | nullableString s => exact ((Reads.nullableString limits).before rest).map _
  | nullAsEmpty s =>
    cases s with
    | none => exact (Reads.string_null.before rest).map _
    | some s => exact ((Reads.string limits).before rest).map _
  | stringArray ss =>
    exact ((Reads.stringArray (Nat.lt_of_le_of_lt limits.1 bound) limits.2).before rest).map _
  | int32Array is =>
    exact ((Reads.int32Array (Nat.lt_of_le_of_lt limits bound)).before rest).map _
  | int64Array is =>
    have few : (is.map Int64.toInt).length < 256 ^ 4 := by
      rw [length_map]
      exact Nat.lt_of_le_of_lt limits bound
    have range : ∀ i ∈ is.map Int64.toInt, -2 ^ 63 ≤ i ∧ i < 2 ^ 63 := by
      intro i inside
      obtain ⟨j, -, rfl⟩ := mem_map.mp inside
      exact ⟨j.le_toInt, j.toInt_lt⟩
    exact ((Reads.int64Array few range).before rest).map _
  | push f => exact plain.elim
  | pop => exact plain.elim

/-- The mark of a frame passes the check of the reader. -/
theorem check_mark {f : Frame} {d : ByteDecoder} (here : d.Rest (f.mark crc p ++ p ++ rest)) :
    check crc f d.off (d.off + 4 + p.length) d.b = .ok () := by
  have length := here.length
  simp only [length_append, Frame.length_mark] at length
  have mark : (d.b.drop d.off).take 4 = f.mark crc p := by
    rw [here.2, append_assoc, take_left' (by simp)]
  cases f with
  | crc =>
    have body : (d.b.take (d.off + 4 + p.length)).drop (d.off + 4) = p := by
      rw [drop_take, ← drop_drop, here.2, append_assoc,
        drop_left' (by simp), Nat.add_sub_cancel_left, take_left' rfl]
    have number : getUint (Frame.mark crc p .crc) = (crc p).toNat := by
      have small : (crc p).toNat < 256 ^ 4 := (crc p).toNat_lt
      rw [Frame.mark, getUint_putUint, Nat.mod_eq_of_lt small]
    rw [check, if_pos (by omega), body, mark, number, if_pos rfl]
  | size =>
    have number : getUint (Frame.mark crc p .size) = p.length % 2 ^ 32 := by
      rw [Frame.mark, getUint_putUint]
      omega
    rw [check, if_pos (by omega), mark, number, if_pos (by omega)]

/-- What is read between a `Push` and its `Pop`. -/
def framed (crc : Bytes → UInt32) (f : Frame) (dec : Call ByteDecoder α) : Call ByteDecoder α := do
  ByteDecoder.push f
  let value ← dec
  ByteDecoder.pop crc
  return value

theorem push_run (f : Frame) {d : ByteDecoder} {q : Bytes} (here : d.Rest q)
    (marked : 4 ≤ q.length) : (ByteDecoder.push f).run d =
      .ok () { d with off := d.off + 4, stack := (f, d.off) :: d.stack } := by
  unfold ByteDecoder.push
  rw [bind_ok (rfl : _ = Result.ok d.off d), bind_ok (need_run here (by omega))]

theorem ReadsBefore.framed (f : Frame) {dec : Call ByteDecoder α} {value : α}
    (reads : ReadsBefore dec p value rest) :
    ReadsBefore (framed crc f dec) (f.mark crc p ++ p) value rest := by
  intro d here
  have opened := push_run f here (by
    rw [length_append, length_append, Frame.length_mark]
    omega)
  have inner : ByteDecoder.Rest { d with off := d.off + 4, stack := (f, d.off) :: d.stack }
      (p ++ rest) := by
    rw [append_assoc] at here
    have after := here.skip
    rw [Frame.length_mark] at after
    exact after
  have closed : (ByteDecoder.pop crc).run
      (ByteDecoder.skip { d with off := d.off + 4, stack := (f, d.off) :: d.stack } p.length) =
      .ok () (d.skip (f.mark crc p ++ p).length) := by
    simp only [ByteDecoder.pop, skip, check_mark here, length_append, Frame.length_mark]
    rw [Nat.add_assoc]
  unfold Protocol.framed
  rw [bind_ok opened, bind_ok (reads _ inner), bind_ok closed]
  rfl

theorem calls_append (gets more : List Get) :
    calls crc (gets ++ more) = do
      let values ← calls crc gets
      let others ← calls crc more
      return values ++ others := by
  induction gets with
  | nil => simp [calls]
  | cons get gets ih => simp [calls, ih]

theorem calls_frame (f : Frame) (gets more : List Get) :
    calls crc (.push f :: (gets ++ .pop :: more)) = do
      let values ← framed crc f (calls crc gets)
      let others ← calls crc more
      return .none :: (values ++ .none :: others) := by
  simp [calls, calls_append, Get.call, framed]

theorem length_of_writes {items : List Item} (writes : Writes crc (items.map Item.put) p) :
    p.length = breadth items := by
  rw [writes.length, map_map]
  rfl

theorem Item.eq_push {f : Frame} (same : item.put = .push f) : item = .push f := by
  cases item with
  | push g => rw [Put.push.inj same]
  | _ => cases same

theorem Item.eq_pop (same : item.put = .pop) : item = .pop := by
  cases item with
  | pop => rfl
  | _ => cases same

/-- The items are read back off the bytes they were written as. -/
theorem calls_read {items : List Item} (writes : Writes crc (items.map Item.put) p)
    (limits : ∀ item ∈ items, item.Limits) (room : Room rest.length items) :
    ReadsBefore (calls crc (items.map Item.get)) p (items.map Item.value) rest := by
  generalize stored : items.map Item.put = ops at writes
  -- on the structure of the frames, for whatever follows
  induction writes generalizing items rest with
  | nil =>
    rw [map_eq_nil_iff.mp stored]
    exact (Reads.pure []).before rest
  | @plain op ops p plain writes ih =>
    obtain ⟨item, items, rfl, rfl, rfl⟩ := map_eq_cons_iff.mp stored
    obtain ⟨demand, room⟩ := room
    have enough : item.demand ≤ (p ++ rest).length := by
      rw [length_append, length_of_writes writes]
      exact demand
    have first : ReadsBefore (item.get.call crc) item.put.raw item.value (p ++ rest) :=
      Item.reads plain (limits item (mem_cons_self ..)) enough
    have others := ih (fun item inside => limits item (mem_cons_of_mem _ inside)) room rfl
    exact first.bind (others.map (item.value :: ·))
  | @frame f inner ops p q _ writes ihBody ih =>
    obtain ⟨opening, _, rfl, opens, stored₁⟩ := map_eq_cons_iff.mp stored
    obtain ⟨within, _, rfl, rfl, stored₂⟩ := map_eq_append_iff.mp stored₁
    obtain ⟨closing, items, rfl, closes, rfl⟩ := map_eq_cons_iff.mp stored₂
    obtain rfl : opening = .push f := Item.eq_push opens
    obtain rfl : closing = .pop := Item.eq_pop closes
    obtain ⟨-, room⟩ := room
    obtain ⟨inside, -, room⟩ := room_append.mp room
    have after : breadth (.pop :: items) + rest.length = (q ++ rest).length := by
      rw [length_append, length_of_writes writes]
      simp [breadth, Item.put, Put.width, Put.raw]
    rw [after] at inside
    have body := ihBody (fun item here => limits item (by simp [here])) inside rfl
    have others := ih (fun item here => limits item (by simp [here])) room rfl
    simp only [map_cons, map_append, Item.get, Item.value, calls_frame]
    exact (body.framed f).bind (others.map _)

end Reading

/-- What a sequence of calls stored, the matching calls on the decoder read back, up to the end of
the buffer and with every frame checked. -/
theorem items_read_back (crc : Bytes → UInt32) {items : List Item}
    (nested : Nested (items.map Item.put)) (limits : ∀ item ∈ items, item.Limits)
    (room : Room 0 items) :
    ∃ b, encodeWith crc (items.map Item.put) = .ok b ∧
      (calls crc (items.map Item.get)).run (newDecoder b) =
        .ok (items.map Item.value) ⟨b, b.length, []⟩ := by
  obtain ⟨p, writes⟩ : ∃ p, Writes crc (items.map Item.put) p := nested.writes
  have fits : ∀ op ∈ items.map Item.put, op.Fits := by
    intro op inside
    obtain ⟨item, here, rfl⟩ := mem_map.mp inside
    exact Item.fits (limits item here)
  have start : (newDecoder p).Rest (p ++ []) := by
    rw [append_nil]
    exact rest_newDecoder p
  have read : ReadsBefore (calls crc (items.map Item.get)) p (items.map Item.value) [] :=
    calls_read writes limits room
  refine ⟨p, (encodeWith_writes writes fits).2, ?_⟩
  rw [read _ start]
  simp only [newDecoder, skip, Nat.zero_add]

/-- A checksum inside a size, with a raw array length, a null string and negative numbers. -/
theorem items_read_back_nested :
    let items : List Item := [.push .size, .int16 (-3), .push .crc, .nullAsEmpty none,
      .arrayLength 2, .int32Array [1, -2], .pop, .int64 (-1), .bool false, .pop, .bytes none]
    ∃ b, encodeWith checksumIEEE (items.map Item.put) = .ok b ∧
      (calls checksumIEEE (items.map Item.get)).run (newDecoder b) =
        .ok (items.map Item.value) ⟨b, b.length, []⟩ := by
  intro items
  have checked : Nested [.nullableString none, .arrayLength 2, .int32Array [1, -2]] :=
    .plain trivial (.plain trivial (.plain trivial .nil))
  have numbers : Nested [.int64 (-1), .bool false] := .plain trivial (.plain trivial .nil)
  have last : Nested [.bytes none] := .plain trivial .nil
  have sized := Nested.frame .crc checked numbers
  have nested := Nested.frame .size (@Nested.plain (.int16 (-3)) _ trivial sized) last
  have limits : ∀ item ∈ items, item.Limits := by
    simp [items, Item.Limits, maxArrayLength]
  have room : Room 0 items := by
    simp [items, Room, Item.demand, breadth, Item.put, Put.width, Put.raw]
  exact items_read_back checksumIEEE nested limits room

theorem encode_long_bytes (crc : Bytes → UInt32) {p : Bytes} (long : maxInt32 < p.length) :
    (encodeWith crc [.bytes (some p)]).toOption = none := by
  have refused : lenEncode [.bytes (some p)] = .error errInvalidByteSliceLength := by
    simp only [lenEncode, Put.len, if_pos long]
    rfl
  rw [encodeWith, refused]
  rfl

/-- A byte slice that is longer than its length field can say is not encoded. -/
theorem long_bytes_not_read_back :
    (encodeWith checksumIEEE
      ([Item.bytes (some (replicate 2147483648 0))].map Item.put)).toOption = none :=
  encode_long_bytes checksumIEEE (by rw [length_replicate]; decide)

end Jocko.Protocol
