import Jocko.Go.Crc
import Jocko.Go.Outcome
import Jocko.Go.Strings
import Mathlib.Algebra.BigOperators.Group.List.Basic
import Mathlib.Algebra.GroupWithZero.Nat

namespace Jocko.Protocol

open Go List

/-- The two implementations of `PushEncoder`: four bytes that are filled in once what follows
them is there. -/
inductive Frame where
  | crc
  | size

/-- A call on a `PacketEncoder`. An `Encode` method that stops at the first error is the list of
the calls that it makes. -/
inductive Put where
  | bool (b : Bool)
  | int8 (i : Int8)
  | int16 (i : Int16)
  | int32 (i : Int32)
  | int64 (i : Int)
  | arrayLength (n : Int)
  | rawBytes (p : Bytes)
  | bytes (p : Option Bytes)
  | string (s : Str)
  | nullableString (s : Option Str)
  | stringArray (ss : List Str)
  | int32Array (is : List Int32)
  | int64Array (is : List Int)
  | push (f : Frame)
  | pop

def errInvalidStringLength : Stop := .err (.new "kafka: invalid string length")

def errInvalidArrayLength : Stop := .err (.new "kafka: invalid array length")

def errInvalidByteSliceLength : Stop := .err (.new "invalid byteslice length")

def maxInt16 : Nat := 32767

def maxInt32 : Nat := 2147483647

/-- `PutString` of the `LenEncoder` -/
def lenString (s : Str) : Except Stop Nat :=
  if maxInt16 < s.length then .error errInvalidStringLength else .ok (2 + s.length)

/-- The loop of `PutStringArray` over a `LenEncoder`. -/
def lenStrings : List Str → Except Stop Nat
  | [] => .ok 0
  | s :: ss => do
    let n ← lenString s
    return n + (← lenStrings ss)

/-- `PutArrayLength` of the `LenEncoder` -/
def lenArray (n : Int) : Except Stop Nat :=
  if maxInt32 < n then .error errInvalidArrayLength else .ok 4

namespace Put

/-- What a call adds to the `Length` of a `LenEncoder`. -/
def len : Put → Except Stop Nat
  | bool _ => .ok 1
  | int8 _ => .ok 1
  | int16 _ => .ok 2
  | int32 _ => .ok 4
  | int64 _ => .ok 8
  | arrayLength n => lenArray n
  | rawBytes p => if maxInt32 < p.length then .error errInvalidByteSliceLength else .ok p.length
  | bytes none => .ok 4
  | bytes (some p) => if maxInt32 < p.length then .error errInvalidByteSliceLength
      else .ok (4 + p.length)
  | string s => lenString s
  | nullableString none => .ok 2
  | nullableString (some s) => lenString s
  | stringArray ss => do
    let n ← lenArray ss.length
    return n + (← lenStrings ss)
  | int32Array is => do
    let n ← lenArray is.length
    return n + 4 * is.length
  | int64Array is => do
    let n ← lenArray is.length
    return n + 8 * is.length
  | push _ => .ok 4
  | pop => .ok 0

end Put

/-- A `LenEncoder` after the calls of an `Encode` method. -/
def lenEncode : List Put → Except Stop Nat
  | [] => .ok 0
  | op :: ops => do
    let n ← op.len
    return n + (← lenEncode ops)

structure ByteEncoder where
  b : Bytes
  off : Nat
  stack : List (Frame × Nat)

namespace ByteEncoder

variable (e : ByteEncoder)

/-- `Encoding.PutUintN(b[place:], ..)` -/
def putAt (b : Bytes) (place : Nat) (p : Bytes) : Except Stop Bytes :=
  if place + p.length ≤ b.length then .ok (b.take place ++ p ++ b.drop (place + p.length))
  else .error (.panic "index out of range")

/-- Store a number of a fixed width and go on behind it. -/
def putFixed (p : Bytes) : Except Stop ByteEncoder := do
  let b ← putAt e.b e.off p
  return { e with b, off := e.off + p.length }

/-- `copy(e.b[e.off:], p)`, which copies what there is room for. -/
def putCopy (p : Bytes) : Except Stop ByteEncoder := do
  if e.off ≤ e.b.length then
    let b ← putAt e.b e.off (p.take (e.b.length - e.off))
    return { e with b, off := e.off + p.length }
  else .error (.panic "slice bounds out of range")

def putInt16 (i : Int16) : Except Stop ByteEncoder := e.putFixed (putUint 2 i.toUInt16.toNat)

def putInt32 (i : Int32) : Except Stop ByteEncoder := e.putFixed (putUint 4 i.toUInt32.toNat)

def putInt64 (i : Int) : Except Stop ByteEncoder := e.putFixed (putUint 8 (i % 2 ^ 64).toNat)

def putString (s : Str) : Except Stop ByteEncoder := do
  let e ← e.putInt16 (Int16.ofNat s.length)
  e.putCopy s

/-- The loops of the array methods. -/
def putEach {α : Type} (put : ByteEncoder → α → Except Stop ByteEncoder) :
    List α → ByteEncoder → Except Stop ByteEncoder
  | [], e => .ok e
  | x :: xs, e => do
    let e ← put e x
    putEach put xs e

/-- `Fill` of a frame that starts at `start`; `crc` stands for `crc32.ChecksumIEEE`. -/
def fill (crc : Bytes → UInt32) (f : Frame) (start curOffset : Nat) (b : Bytes) :
    Except Stop Bytes :=
  match f with
  | .crc =>
    if start + 4 ≤ curOffset ∧ curOffset ≤ b.length then
      putAt b start (putUint 4 (crc ((b.take curOffset).drop (start + 4))).toNat)
    else .error (.panic "slice bounds out of range")
  | .size => putAt b start (putUint 4 (((curOffset : Int) - start - 4) % 2 ^ 32).toNat)

/-- A call on a `ByteEncoder`. `PutBool` relies on the buffer being zero. -/
def step (crc : Bytes → UInt32) (e : ByteEncoder) : Put → Except Stop ByteEncoder
  | .bool true => e.putFixed [1]
  | .bool false => .ok { e with off := e.off + 1 }
  | .int8 i => e.putFixed [i.toUInt8]
  | .int16 i => e.putInt16 i
  | .int32 i => e.putInt32 i
  | .int64 i => e.putInt64 i
  | .arrayLength n => e.putInt32 (Int32.ofInt n)
  | .rawBytes p => e.putCopy p
  | .bytes none => e.putInt32 (-1)
  | .bytes (some p) => do
    let e ← e.putInt32 (Int32.ofNat p.length)
    e.putCopy p
  | .string s => e.putString s
  | .nullableString none => e.putInt16 (-1)
  | .nullableString (some s) => e.putString s
  | .stringArray ss => do
    let e ← e.putInt32 (Int32.ofNat ss.length)
    putEach putString ss e
  | .int32Array is => do
    let e ← e.putInt32 (Int32.ofNat is.length)
    putEach putInt32 is e
  | .int64Array is => do
    let e ← e.putInt32 (Int32.ofNat is.length)
    putEach putInt64 is e
  | .push f => .ok { e with off := e.off + 4, stack := (f, e.off) :: e.stack }
  | .pop =>
    match e.stack with
    | [] => .error (.panic "index out of range")
    | (f, start) :: stack => do
      let b ← fill crc f start e.off e.b
      return { e with b, stack }

def steps (crc : Bytes → UInt32) : List Put → ByteEncoder → Except Stop ByteEncoder
  | [], e => .ok e
  | op :: ops, e => do
    let e ← e.step crc op
    steps crc ops e

end ByteEncoder

/-- `Encode` for any checksum: a first pass for the length, a second one into a buffer of that
length. -/
def encodeWith (crc : Bytes → UInt32) (ops : List Put) : Except Stop Bytes := do
  let n ← lenEncode ops
  let e ← ByteEncoder.steps crc ops ⟨List.replicate n 0, 0, []⟩
  return e.b

/-- `Encode` -/
def encode (ops : List Put) : Except Stop Bytes := encodeWith checksumIEEE ops

variable {k : Nat}

namespace Put

/-- A call that stores its argument where the encoder is. -/
def Plain : Put → Prop
  | push _ => False
  | pop => False
  | _ => True

def rawString (s : Str) : Bytes := putUint 2 (Int16.ofNat s.length).toUInt16.toNat ++ s

def rawInt32 (i : Int32) : Bytes := putUint 4 i.toUInt32.toNat

def rawInt64 (i : Int) : Bytes := putUint 8 (i % 2 ^ 64).toNat

/-- What a plain call stores. -/
def raw : Put → Bytes
  | bool b => [if b then 1 else 0]
  | int8 i => [i.toUInt8]
  | int16 i => putUint 2 i.toUInt16.toNat
  | int32 i => rawInt32 i
  | int64 i => rawInt64 i
  | arrayLength n => rawInt32 (Int32.ofInt n)
  | rawBytes p => p
  | bytes none => rawInt32 (-1)
  | bytes (some p) => rawInt32 (Int32.ofNat p.length) ++ p
  | string s => rawString s
  | nullableString none => putUint 2 (-1 : Int16).toUInt16.toNat
  | nullableString (some s) => rawString s
  | stringArray ss => rawInt32 (Int32.ofNat ss.length) ++ ss.flatMap rawString
  | int32Array is => rawInt32 (Int32.ofNat is.length) ++ is.flatMap rawInt32
  | int64Array is => rawInt32 (Int32.ofNat is.length) ++ is.flatMap rawInt64
  | push _ => []
  | pop => []

theorem raw_int8 (i : Int8) : (int8 i).raw = [i.toUInt8] := rfl

theorem raw_int64 (i : Int) : (int64 i).raw = putUint 8 (i % 2 ^ 64).toNat := rfl

@[simp] theorem length_rawString (s : Str) : (rawString s).length = 2 + s.length := by
  simp [rawString]

@[simp] theorem length_rawInt32 (i : Int32) : (rawInt32 i).length = 4 := length_putUint ..

@[simp] theorem length_rawInt64 (i : Int) : (rawInt64 i).length = 8 := length_putUint ..

/-- The calls that the `LenEncoder` accepts. -/
def Fits : Put → Prop
  | arrayLength n => n ≤ maxInt32
  | rawBytes p => p.length ≤ maxInt32
  | bytes p => (p.getD []).length ≤ maxInt32
  | string s => s.length ≤ maxInt16
  | nullableString s => (s.getD []).length ≤ maxInt16
  | stringArray ss => ss.length ≤ maxInt32 ∧ ∀ s ∈ ss, s.length ≤ maxInt16
  | int32Array is => is.length ≤ maxInt32
  | int64Array is => is.length ≤ maxInt32
  | _ => True

/-- How far a call moves the encoder. -/
def width : Put → Nat
  | push _ => 4
  | op => op.raw.length

theorem lenArray_eq_ok {n : Int} : lenArray n = .ok k ↔ n ≤ maxInt32 ∧ k = 4 := by
  unfold lenArray
  split
  · simp
    omega
  · simp
    omega

theorem lenString_eq_ok {s : Str} :
    lenString s = .ok k ↔ s.length ≤ maxInt16 ∧ k = (rawString s).length := by
  rw [length_rawString]
  unfold lenString
  split
  · simp
    omega
  · simp
    omega

/-- What a returning sequence of two lengths says of both. -/
theorem sum_eq_ok {x y : Except Stop Nat} :
    (do return (← x) + (← y) : Except Stop Nat) = .ok k ↔
      ∃ i j, x = .ok i ∧ y = .ok j ∧ k = i + j := by
  cases x with
  | error why => simp [bind, Except.bind]
  | ok i =>
    cases y with
    | error why => simp [bind, Except.bind]
    | ok j => simp [bind, Except.bind, pure, Except.pure, eq_comm]

theorem lenStrings_eq_ok {ss : List Str} :
    lenStrings ss = .ok k ↔ (∀ s ∈ ss, s.length ≤ maxInt16) ∧ k = (ss.flatMap rawString).length := by
  induction ss generalizing k with
  | nil => simp [lenStrings, eq_comm]
  | cons s ss ih =>
    rw [lenStrings, sum_eq_ok]
    simp only [lenString_eq_ok, ih, mem_cons, forall_eq_or_imp, flatMap_cons,
      length_append]
    constructor
    · rintro ⟨i, j, ⟨first, rfl⟩, ⟨rest, rfl⟩, rfl⟩
      exact ⟨⟨first, rest⟩, rfl⟩
    · rintro ⟨⟨first, rest⟩, rfl⟩
      exact ⟨_, _, ⟨first, rfl⟩, ⟨rest, rfl⟩, rfl⟩

theorem length_flatMap_fixed {α : Type} {raw : α → Bytes} {width : Nat}
    (fixed : ∀ x, (raw x).length = width) (xs : List α) :
    (xs.flatMap raw).length = width * xs.length := by
  induction xs with
  | nil => rfl
  | cons x xs ih =>
    rw [flatMap_cons, length_append, fixed, ih, length_cons, Nat.mul_succ]
    omega

theorem lenFixed_eq_ok {n : Int} {m : Nat} :
    (do let i ← lenArray n; return i + m : Except Stop Nat) = .ok k ↔
      n ≤ maxInt32 ∧ k = 4 + m := by
  have same : (do let i ← lenArray n; return i + m : Except Stop Nat) =
      (do return (← lenArray n) + (← Except.ok m) : Except Stop Nat) := rfl
  rw [same, sum_eq_ok]
  simp [lenArray_eq_ok]

theorem len_eq_ok {op : Put} : op.len = .ok k ↔ op.Fits ∧ k = op.width := by
  cases op with
  | bool b | int8 i | int16 i | int32 i | int64 i | push f | pop =>
    simp [len, Fits, width, raw, eq_comm]
  | arrayLength n => simpa [len, Fits, width, raw] using lenArray_eq_ok
  | rawBytes p =>
    simp only [len, Fits, width, raw]
    split
    · simp
      omega
    · simp
      omega
  | bytes p =>
    cases p with
    | none => simp [len, Fits, width, raw, eq_comm]
    | some p =>
      simp only [len, Fits, width, raw, Option.getD_some, length_append, length_rawInt32]
      split
      · simp
        omega
      · simp
        omega
  | string s => exact lenString_eq_ok
  | nullableString s =>
    cases s with
    | none => simp [len, Fits, width, raw, eq_comm]
    | some s => exact lenString_eq_ok
  | stringArray ss =>
    rw [len, sum_eq_ok]
    simp only [lenArray_eq_ok, lenStrings_eq_ok, Fits, width, raw, length_append,
      length_rawInt32, Int.ofNat_le]
    constructor
    · rintro ⟨i, j, ⟨few, rfl⟩, ⟨short, rfl⟩, rfl⟩
      exact ⟨⟨few, short⟩, rfl⟩
    · rintro ⟨⟨few, short⟩, rfl⟩
      exact ⟨_, _, ⟨few, rfl⟩, ⟨short, rfl⟩, rfl⟩
  | int32Array is =>
    have total : (int32Array is).width = 4 + 4 * is.length := by
      change (rawInt32 _ ++ is.flatMap rawInt32).length = _
      rw [length_append, length_rawInt32, length_flatMap_fixed length_rawInt32]
    rw [len, lenFixed_eq_ok, total, Int.ofNat_le]
    rfl
  | int64Array is =>
    have total : (int64Array is).width = 4 + 8 * is.length := by
      change (rawInt32 _ ++ is.flatMap rawInt64).length = _
      rw [length_append, length_rawInt32, length_flatMap_fixed length_rawInt64]
    rw [len, lenFixed_eq_ok, total, Int.ofNat_le]
    rfl

end Put

variable {ops : List Put}

/-- The first pass sums up how far the calls move the second one. -/
theorem lenEncode_eq_ok :
    lenEncode ops = .ok k ↔ (∀ op ∈ ops, op.Fits) ∧ k = (ops.map Put.width).sum := by
  induction ops generalizing k with
  | nil => simp [lenEncode, eq_comm]
  | cons op ops ih =>
    rw [lenEncode, Put.sum_eq_ok]
    simp only [Put.len_eq_ok, ih, mem_cons, forall_eq_or_imp, map_cons, sum_cons]
    constructor
    · rintro ⟨i, j, ⟨first, rfl⟩, ⟨rest, rfl⟩, rfl⟩
      exact ⟨⟨first, rest⟩, rfl⟩
    · rintro ⟨⟨first, rest⟩, rfl⟩
      exact ⟨_, _, ⟨first, rfl⟩, ⟨rest, rfl⟩, rfl⟩

namespace ByteEncoder

/-- The buffer is written up to the encoder's place, and blank from there on. -/
def Blank (e : ByteEncoder) (done : Bytes) (room : Nat) : Prop :=
  e.b = done ++ List.replicate room 0 ∧ e.off = done.length

/-- What a call does that stores `p` on an encoder with room for it. -/
def Stores (put : ByteEncoder → Except Stop ByteEncoder) (p : Bytes) : Prop :=
  ∀ (e : ByteEncoder) (done : Bytes) (room : Nat), e.Blank done room → p.length ≤ room →
    ∃ e', put e = .ok e' ∧ e'.Blank (done ++ p) (room - p.length) ∧ e'.stack = e.stack

theorem putAt_blank (done p : Bytes) {room : Nat} (fits : p.length ≤ room) :
    putAt (done ++ List.replicate room 0) done.length p =
      .ok (done ++ p ++ List.replicate (room - p.length) 0) := by
  have inside : done.length + p.length ≤ (done ++ replicate room (0 : UInt8)).length := by
    simpa using fits
  simp only [putAt, if_pos inside, take_left', drop_append, drop_replicate]
  simp

theorem putAt_middle (done old p rest : Bytes) (same : p.length = old.length) :
    putAt (done ++ old ++ rest) done.length p = .ok (done ++ p ++ rest) := by
  have inside : done.length + p.length ≤ (done ++ old ++ rest).length := by
    simp only [length_append]
    omega
  have front : (done ++ old ++ rest).take done.length = done := by
    rw [append_assoc, take_left']
    rfl
  have back : (done ++ old ++ rest).drop (done.length + p.length) = rest := by
    rw [drop_left' (by rw [length_append, same])]
  rw [putAt, if_pos inside, front, back]

namespace Stores

theorem none : Stores .ok [] := by
  intro e done room blank _
  exact ⟨e, rfl, by simpa using blank, rfl⟩

theorem bind {first second : ByteEncoder → Except Stop ByteEncoder} {p q : Bytes}
    (stores : Stores first p) (storesNext : Stores second q) :
    Stores (fun e => first e >>= second) (p ++ q) := by
  intro e done room blank fits
  rw [length_append] at fits
  obtain ⟨e₁, ran₁, blank₁, stack₁⟩ := stores e done room blank (by omega)
  obtain ⟨e₂, ran₂, blank₂, stack₂⟩ := storesNext e₁ _ _ blank₁ (by omega)
  refine ⟨e₂, ?_, ?_, stack₂.trans stack₁⟩
  · change first e >>= second = _
    rw [ran₁]
    exact ran₂
  · rwa [append_assoc, Nat.sub_sub, ← length_append] at blank₂

theorem fixed (p : Bytes) : Stores (putFixed · p) p := by
  intro e done room blank fits
  obtain ⟨buffer, place⟩ := blank
  refine ⟨⟨done ++ p ++ replicate (room - p.length) 0, done.length + p.length, e.stack⟩, ?_,
    ⟨rfl, by simp⟩, rfl⟩
  change e.putFixed p = _
  unfold putFixed
  rw [buffer, place, putAt_blank done p fits]
  rfl

theorem copy (p : Bytes) : Stores (putCopy · p) p := by
  intro e done room blank fits
  obtain ⟨buffer, place⟩ := blank
  refine ⟨⟨done ++ p ++ replicate (room - p.length) 0, done.length + p.length, e.stack⟩, ?_,
    ⟨rfl, by simp⟩, rfl⟩
  have inside : done.length ≤ (done ++ replicate room (0 : UInt8)).length := by simp
  have whole : p.take ((done ++ replicate room (0 : UInt8)).length - done.length) = p := by
    apply take_of_length_le
    simpa using fits
  change e.putCopy p = _
  unfold putCopy
  rw [buffer, place, if_pos inside, whole, putAt_blank done p fits]
  rfl

theorem string (s : Str) : Stores (putString · s) (Put.rawString s) :=
  (fixed _).bind (copy s)

theorem each {α : Type} {put : ByteEncoder → α → Except Stop ByteEncoder} {raw : α → Bytes}
    (one : ∀ x, Stores (put · x) (raw x)) (xs : List α) :
    Stores (putEach put xs) (xs.flatMap raw) := by
  induction xs with
  | nil => exact none
  | cons x xs ih =>
    rw [flatMap_cons]
    exact (one x).bind ih

theorem plain (crc : Bytes → UInt32) {op : Put} (plain : op.Plain) :
    Stores (fun e => e.step crc op) op.raw := by
  cases op with
  | bool b =>
    cases b with
    | true => exact fixed _
    | false =>
      intro e done room blank fits
      obtain ⟨buffer, place⟩ := blank
      obtain ⟨room, rfl⟩ := Nat.exists_eq_add_of_le' (show 1 ≤ room from fits)
      refine ⟨_, rfl, ⟨?_, ?_⟩, rfl⟩
      · simp [buffer, Put.raw, replicate_succ]
      · simp [place, Put.raw]
  | int8 i | int16 i | int32 i | int64 i | arrayLength n => exact fixed _
  | rawBytes p => exact copy p
  | bytes p =>
    cases p with
    | none => exact fixed _
    | some p => exact (fixed _).bind (copy p)
  | string s => exact string s
  | nullableString s =>
    cases s with
    | none => exact fixed _
    | some s => exact string s
  | stringArray ss => exact (fixed _).bind (each string ss)
  | int32Array is => exact (fixed _).bind (each (fun i => fixed _) is)
  | int64Array is => exact (fixed _).bind (each (fun i => fixed _) is)
  | push f => exact plain.elim
  | pop => exact plain.elim

end Stores

theorem steps_append (crc : Bytes → UInt32) (ops more : List Put) (e : ByteEncoder) :
    steps crc (ops ++ more) e = steps crc ops e >>= steps crc more := by
  induction ops generalizing e with
  | nil => rfl
  | cons op ops ih =>
    rw [cons_append, steps, steps]
    cases e.step crc op with
    | error why => rfl
    | ok e' => exact ih e'

end ByteEncoder

/-- Sequences of calls in which every `Pop` closes the last open `Push`. -/
inductive Nested : List Put → Prop where
  | nil : Nested []
  | plain {op : Put} {ops : List Put} (plain : op.Plain) (rest : Nested ops) : Nested (op :: ops)
  | frame (f : Frame) {inner ops : List Put} (body : Nested inner) (rest : Nested ops) :
      Nested (.push f :: (inner ++ .pop :: ops))

/-- What is filled in in front of the bytes of a frame. -/
def Frame.mark (crc : Bytes → UInt32) (body : Bytes) : Frame → Bytes
  | .crc => putUint 4 (crc body).toNat
  | .size => putUint 4 (body.length % 2 ^ 32)

@[simp] theorem Frame.length_mark (crc : Bytes → UInt32) (body : Bytes) (f : Frame) :
    (f.mark crc body).length = 4 := by
  cases f with
  | crc => exact length_putUint ..
  | size => exact length_putUint ..

/-- The bytes of a sequence of calls: those of each call in turn, a frame's mark in front of
the bytes of the frame. -/
inductive Writes (crc : Bytes → UInt32) : List Put → Bytes → Prop where
  | nil : Writes crc [] []
  | plain {op : Put} {ops : List Put} {p : Bytes} (plain : op.Plain) (rest : Writes crc ops p) :
      Writes crc (op :: ops) (op.raw ++ p)
  | frame (f : Frame) {inner ops : List Put} {p q : Bytes} (body : Writes crc inner p)
      (rest : Writes crc ops q) :
      Writes crc (.push f :: (inner ++ .pop :: ops)) (f.mark crc p ++ p ++ q)

section

variable {crc : Bytes → UInt32} {ops : List Put} {p : Bytes}

theorem Nested.writes (nested : Nested ops) : ∃ p, Writes crc ops p := by
  induction nested with
  | nil => exact ⟨_, .nil⟩
  | plain plain _ rest =>
    obtain ⟨p, rest⟩ := rest
    exact ⟨_, .plain plain rest⟩
  | frame f _ _ body rest =>
    obtain ⟨p, body⟩ := body
    obtain ⟨q, rest⟩ := rest
    exact ⟨_, .frame f body rest⟩

theorem Writes.of_plain (plain : ∀ op ∈ ops, op.Plain) : Writes crc ops (ops.flatMap Put.raw) := by
  induction ops with
  | nil => exact .nil
  | cons op ops ih =>
    rw [flatMap_cons]
    exact .plain (plain op (mem_cons_self ..))
      (ih fun op inside => plain op (mem_cons_of_mem _ inside))

theorem Writes.length (writes : Writes crc ops p) : p.length = (ops.map Put.width).sum := by
  induction writes with
  | nil => rfl
  | @plain op ops p plain _ ih =>
    have moved : op.width = op.raw.length := by
      cases op with
      | push f => exact plain.elim
      | _ => rfl
    simp [ih, moved]
  | frame f _ _ body rest =>
    simp [body, rest, Put.width, Put.raw]

end

namespace ByteEncoder

/-- `Fill` of a frame puts the mark of what was stored since into the place left for it. -/
theorem fill_blank (crc : Bytes → UInt32) (f : Frame) (done p rest : Bytes) :
    fill crc f done.length (done ++ List.replicate 4 0 ++ p).length
        (done ++ List.replicate 4 0 ++ p ++ rest) = .ok (done ++ (f.mark crc p ++ p) ++ rest) := by
  have place : (done ++ replicate 4 0 ++ p).length = done.length + 4 + p.length := by
    rw [length_append, length_append, length_replicate]
  have filled : putAt (done ++ replicate 4 0 ++ p ++ rest) done.length (f.mark crc p) =
      .ok (done ++ (f.mark crc p ++ p) ++ rest) := by
    rw [append_assoc _ p rest, putAt_middle _ _ _ _ (by simp)]
    simp only [append_assoc]
  cases f with
  | crc =>
    have within : done.length + 4 ≤ (done ++ replicate 4 0 ++ p).length ∧
        (done ++ replicate 4 0 ++ p).length ≤
          (done ++ replicate 4 (0 : UInt8) ++ p ++ rest).length := by
      constructor
      · omega
      · simp
    have body : ((done ++ replicate 4 0 ++ p ++ rest).take
        (done ++ replicate 4 (0 : UInt8) ++ p).length).drop (done.length + 4) = p := by
      rw [take_left' rfl, drop_left' (by simp)]
    simp only [fill, if_pos within, body]
    exact filled
  | size =>
    have length : ((((done ++ replicate 4 (0 : UInt8) ++ p).length : Nat) : Int) -
        done.length - 4) = p.length := by
      rw [place]
      omega
    change putAt _ _ (putUint 4 (Int.toNat _)) = _
    rw [length]
    exact filled

theorem Stores.writes {crc : Bytes → UInt32} {p : Bytes}
    (writes : Writes crc ops p) : Stores (steps crc ops) p := by
  induction writes with
  | nil => exact Stores.none
  | plain plain _ rest => exact (Stores.plain crc plain).bind rest
  | @frame f inner ops p q _ _ body rest =>
    have framed : Stores (fun e => steps crc (.push f :: (inner ++ [.pop])) e)
        (f.mark crc p ++ p) := by
      intro e done room blank fits
      rw [length_append, Frame.length_mark] at fits
      obtain ⟨buffer, place⟩ := blank
      have opened : Blank ⟨e.b, e.off + 4, (f, e.off) :: e.stack⟩
          (done ++ replicate 4 0) (room - 4) := by
        constructor
        · rw [append_assoc, replicate_append_replicate, buffer]
          congr 2
          omega
        · simp [place]
      obtain ⟨e₁, ran, ⟨buffer₁, place₁⟩, stack₁⟩ := body _ _ _ opened (by omega)
      refine ⟨⟨done ++ (f.mark crc p ++ p) ++ replicate (room - 4 - p.length) 0, e₁.off,
        e.stack⟩, ?_, ⟨?_, ?_⟩, rfl⟩
      · change (steps crc (inner ++ [.pop]) _) = _
        rw [steps_append, ran]
        change (e₁.step crc .pop >>= fun e => steps crc [] e) = _
        simp only [step, stack₁, place₁, buffer₁, place, fill_blank]
        rfl
      · simp [Nat.sub_sub]
      · simp [place₁]
        omega
    have apart : ∀ e, steps crc (.push f :: (inner ++ .pop :: ops)) e =
        steps crc (.push f :: (inner ++ [.pop])) e >>= steps crc ops := by
      intro e
      rw [← steps_append]
      simp
    intro e done room blank fits
    rw [apart e]
    exact (framed.bind rest) e done room blank fits

end ByteEncoder

/-- A nested sequence of calls is encoded as its bytes, if the first pass accepts it. -/
theorem encodeWith_writes {crc : Bytes → UInt32} {p : Bytes}
    (writes : Writes crc ops p) (fits : ∀ op ∈ ops, op.Fits) :
    ByteEncoder.steps crc ops ⟨List.replicate p.length 0, 0, []⟩ = .ok ⟨p, p.length, []⟩ ∧
      encodeWith crc ops = .ok p := by
  have length : lenEncode ops = .ok p.length := lenEncode_eq_ok.mpr ⟨fits, writes.length⟩
  have start : ByteEncoder.Blank ⟨replicate p.length 0, 0, []⟩ [] p.length := ⟨rfl, rfl⟩
  obtain ⟨e, ran, ⟨buffer, place⟩, stack⟩ := ByteEncoder.Stores.writes writes _ _ _ start (Nat.le_refl _)
  have final : e = ⟨p, p.length, []⟩ := by
    obtain ⟨b, off, open'⟩ := e
    simp only [nil_append, Nat.sub_self, replicate_zero, append_nil] at buffer place
    simp only at stack
    rw [buffer, place, stack]
  rw [final] at ran
  refine ⟨ran, ?_⟩
  rw [encodeWith, length]
  change (ByteEncoder.steps crc ops _ >>= fun e => pure e.b) = _
  rw [ran]
  rfl

/-- The two passes agree: what the first one accepts, the second one stores without an error, up
to the end of the buffer and with every byte from a call. -/
theorem encode_passes_agree (crc : Bytes → UInt32) {ops : List Put} {n : Nat}
    (nested : Nested ops) (accepted : lenEncode ops = .ok n) :
    ∃ p, Writes crc ops p ∧ p.length = n ∧
      ByteEncoder.steps crc ops ⟨List.replicate n 0, 0, []⟩ = .ok ⟨p, n, []⟩ ∧
      encodeWith crc ops = .ok p := by
  obtain ⟨fits, rfl⟩ := lenEncode_eq_ok.mp accepted
  obtain ⟨p, writes⟩ : ∃ p, Writes crc ops p := nested.writes
  have stored := encodeWith_writes writes fits
  rw [writes.length] at stored
  exact ⟨p, writes, writes.length, stored⟩

/-- A checksum inside a size, around a null string, an array and a flag. -/
theorem encode_passes_agree_nested :
    ∃ p, Writes checksumIEEE [.push .size, .int16 3, .push .crc, .nullableString none,
        .int32Array [1, 2], .pop, .bool false, .pop] p ∧ p.length = 25 ∧
      ByteEncoder.steps checksumIEEE [.push .size, .int16 3, .push .crc, .nullableString none,
        .int32Array [1, 2], .pop, .bool false, .pop] ⟨List.replicate 25 0, 0, []⟩ =
        .ok ⟨p, 25, []⟩ ∧
      encodeWith checksumIEEE [.push .size, .int16 3, .push .crc, .nullableString none,
        .int32Array [1, 2], .pop, .bool false, .pop] = .ok p := by
  have checked : Nested [.nullableString none, .int32Array [1, 2]] :=
    .plain trivial (.plain trivial .nil)
  have flag : Nested [.bool false] := .plain trivial .nil
  have sized := Nested.frame .crc checked flag
  have nested := Nested.frame .size (@Nested.plain (.int16 3) _ trivial sized) .nil
  exact encode_passes_agree checksumIEEE nested (by decide)

theorem encode_plain (plain : ∀ op ∈ ops, op.Plain)
    (fits : ∀ op ∈ ops, op.Fits) : encode ops = .ok (ops.flatMap Put.raw) :=
  (encodeWith_writes (Writes.of_plain plain) fits).2

/-- Plain calls between a `Push` of a checksum and its `Pop` follow the checksum of what they
store. -/
theorem encode_checked (plain : ∀ op ∈ ops, op.Plain) (fits : ∀ op ∈ ops, op.Fits) :
    encode (.push .crc :: (ops ++ [.pop])) =
      .ok (putUint 4 (checksumIEEE (ops.flatMap Put.raw)).toNat ++ ops.flatMap Put.raw) := by
  have writes : Writes checksumIEEE (.push .crc :: (ops ++ [.pop])) _ :=
    .frame .crc (.of_plain plain) .nil
  rw [append_nil] at writes
  refine (encodeWith_writes writes ?_).2
  intro op inside
  simp only [mem_cons, mem_append, not_mem_nil, or_false] at inside
  rcases inside with rfl | body | rfl
  · trivial
  · exact fits op body
  · trivial

end Jocko.Protocol
