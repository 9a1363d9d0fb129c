import Jocko.Go.Outcome
import Jocko.Go.Bytes

namespace Jocko.Commitlog

open Go

def msgSetHeaderLen : Nat := 12

/-- `p[low:high]`, for a slice whose capacity is its length -/
def slice (p : Bytes) (low high : Int) : Except Stop Bytes :=
  if 0 ≤ low ∧ low ≤ high ∧ high ≤ p.length then
    .ok ((p.take high.toNat).drop low.toNat)
  else .error (.panic "slice bounds out of range")

/-- `Encoding.Uint32(p)`, which reads the first four bytes. -/
def encodingUint32 (p : Bytes) : Except Stop Nat :=
  if p.length < 4 then .error (.panic "index out of range") else .ok (getUint (p.take 4))

namespace Message

def magicByte (m : Bytes) : Except Stop Int :=
  match m[4]? with
  | some byte => .ok (if byte.toNat < 128 then byte.toNat else byte.toNat - 256)
  | none => .error (.panic "index out of range")

def attributes (m : Bytes) : Except Stop Int :=
  match m[5]? with
  | some byte => .ok (if byte.toNat < 128 then byte.toNat else byte.toNat - 256)
  | none => .error (.panic "index out of range")

def timestamp (m : Bytes) : Except Stop Int := do
  if (← magicByte m) = 0 then .error (.panic "v0 doesn't have timestamp")
  else
    let p ← slice m 6 m.length
    if p.length < 8 then .error (.panic "index out of range")
    else return (getUint (p.take 8) : Int).bmod (2 ^ 64)

def keyOffsets (m : Bytes) : Except Stop (Int × Int × Int) := do
  let magic ← magicByte m
  let start : Int := if magic = 0 then 6 else 14
  let size := int32 (← encodingUint32 (← slice m start m.length))
  return (start, int32 (start + 4 + size), size)

def valueOffsets (m : Bytes) : Except Stop (Int × Int × Int) := do
  let (_, keyEnd, _) ← keyOffsets m
  let size := int32 (← encodingUint32 (← slice m keyEnd m.length))
  return (keyEnd, int32 (keyEnd + 4 + size), size)

/-- `none` is the nil key. -/
def key (m : Bytes) : Except Stop (Option Bytes) := do
  let (start, stop, size) ← keyOffsets m
  if size = -1 then return none else return some (← slice m (int32 (start + 4)) stop)

/-- `none` is the nil value. -/
def value (m : Bytes) : Except Stop (Option Bytes) := do
  let (start, stop, size) ← valueOffsets m
  if size = -1 then return none else return some (← slice m (int32 (start + 4)) stop)

def size (m : Bytes) : Except Stop Int := do
  let magic ← magicByte m
  let header : Int := if 0 < magic then 18 else 10
  let (_, _, keySize) ← keyOffsets m
  let keyed := if keySize = -1 then header else int32 (header + keySize)
  let (_, _, valueSize) ← valueOffsets m
  let valued := int32 (keyed + 4)
  return if valueSize = -1 then valued else int32 (valued + valueSize)

end Message

namespace MessageSet

/-- The stored bytes of a set once its first eight are the offset. -/
def stamp (offset : Int) (ms : Bytes) : Bytes :=
  putUint 8 (offset % 2 ^ 64).toNat ++ ms.drop 8

def putOffset (ms : Bytes) (offset : Int) : Except Stop Bytes :=
  if ms.length < 8 then .error (.panic "slice bounds out of range") else .ok (stamp offset ms)

/-- `int64(Encoding.Uint64(ms[0:8]))` -/
def offset (ms : Bytes) : Except Stop Int := do
  let p ← slice ms 0 8
  return (getUint p : Int).bmod (2 ^ 64)

theorem offset_lt {ms : Bytes} {o : Int} (reads : offset ms = .ok o) : o < 2 ^ 63 := by
  unfold offset at reads
  cases field : slice ms 0 8 with
  | error why =>
    rw [field] at reads
    cases reads
  | ok p =>
    rw [field] at reads
    obtain rfl := Except.ok.inj reads
    simp only [Int.bmod]
    omega

theorem offset_append {ms : Bytes} {o : Int} (reads : offset ms = .ok o) (rest : Bytes) :
    offset (ms ++ rest) = .ok o := by
  have long : 8 ≤ ms.length := by
    by_contra short
    have bounds : ¬(0 ≤ (0 : Int) ∧ (0 : Int) ≤ 8 ∧ (8 : Int) ≤ ms.length) := by omega
    simp only [offset, slice, if_neg bounds] at reads
    cases reads
  have bounds : 0 ≤ (0 : Int) ∧ (0 : Int) ≤ 8 ∧ (8 : Int) ≤ ms.length := by omega
  have bounds' : 0 ≤ (0 : Int) ∧ (0 : Int) ≤ 8 ∧ (8 : Int) ≤ (ms ++ rest).length := by
    rw [List.length_append]
    omega
  have front : (ms ++ rest).take (8 : Int).toNat = ms.take (8 : Int).toNat :=
    List.take_append_of_le_length long
  simp only [offset, slice, if_pos bounds', front]
  simpa only [offset, slice, if_pos bounds] using reads

/-- The size field and the header length, added as `uint32` and read as `int32`. -/
def size (ms : Bytes) : Except Stop Int := do
  let p ← slice ms 8 12
  return int32 ((getUint p + msgSetHeaderLen : Nat) : Int)

def payload (ms : Bytes) : Except Stop Bytes := slice ms msgSetHeaderLen ms.length

/-- The loop of `Messages`. `offset` is what the previous round left there, twice the
size of its message. A round that takes nothing from `b` is repeated forever, so a
loop that outlasts the bytes does not end. -/
def messagesFrom (payloadSize : Int) : Nat → Int → Bytes → Except Stop (List Bytes)
  | 0, _, _ => .error .diverge
  | fuel + 1, offset, b =>
    if offset < payloadSize then do
      let size ← Message.size b
      let msg ← slice b 0 size
      let rest ← slice b size b.length
      let msgs ← messagesFrom payloadSize fuel (int32 (size + size)) rest
      return msg :: msgs
    else return []

def messages (ms : Bytes) : Except Stop (List Bytes) := do
  let b ← payload ms
  messagesFrom (int32 b.length) (b.length + 2) 0 b

end MessageSet

end Jocko.Commitlog
