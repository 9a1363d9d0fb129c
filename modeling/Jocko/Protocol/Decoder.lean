import Jocko.Go.Laws
import Jocko.Protocol.Encoder

namespace Jocko.Protocol

open Go List

def errInsufficientData : Stop :=
  .err (.new "kafka: insufficient data to decode packet, more bytes expected")

structure ByteDecoder where
  b : Bytes
  off : Nat
  stack : List (Frame × Nat)

/-- `NewDecoder` -/
def newDecoder (b : Bytes) : ByteDecoder := ⟨b, 0, []⟩

namespace ByteDecoder

variable {α β : Type}

def remaining : Call ByteDecoder Int := ⟨fun d => .ok ((d.b.length : Int) - d.off) d⟩

/-- `Encoding.UintN(d.b[d.off:])`, then `d.off += width` -/
def fixed (width : Nat) : Call ByteDecoder Nat := ⟨fun d =>
  if d.off + width ≤ d.b.length then
    .ok (getUint ((d.b.drop d.off).take width)) { d with off := d.off + width }
  else .error (.panic "index out of range") d⟩

/-- `d.b[d.off : d.off+n]`, then `d.off += n` -/
def slice (n : Nat) : Call ByteDecoder Bytes := ⟨fun d =>
  if d.off + n ≤ d.b.length then
    .ok ((d.b.drop d.off).take n) { d with off := d.off + n }
  else .error (.panic "slice bounds out of range") d⟩

/-- `d.off = len(d.b)`, and the error. -/
def insufficient : Call ByteDecoder α := ⟨fun d =>
  .error errInsufficientData { d with off := d.b.length }⟩

/-- `if d.remaining() < n` -/
def need (n : Int) : Call ByteDecoder Unit := do
  let left ← remaining
  if left < n then insufficient else pure ()

def int8 : Call ByteDecoder Int8 := do
  let tmp ← fixed 1
  return Int8.ofNat tmp

def bool : Call ByteDecoder Bool := do
  let i ← int8
  return i = 1

def int16 : Call ByteDecoder Int16 := do
  let tmp ← fixed 2
  return Int16.ofNat tmp

def int32 : Call ByteDecoder Int32 := do
  need 4
  let tmp ← fixed 4
  return Int32.ofNat tmp

def int64 : Call ByteDecoder Int := do
  need 8
  let tmp ← fixed 8
  return (tmp : Int).bmod (2 ^ 64)

/-- `2 * math.MaxUint16` -/
def maxArrayLength : Nat := 131070

def arrayLength : Call ByteDecoder Nat := do
  need 4
  let tmp ← fixed 4
  need tmp
  if maxArrayLength < tmp then stop errInvalidArrayLength else return tmp

def bytes : Call ByteDecoder (Option Bytes) := do
  let tmp ← int32
  let n := tmp.toInt
  if n < -1 then stop errInvalidByteSliceLength
  else if n = -1 then return none
  else if n = 0 then return some []
  else do
    need n
    let tmpStr ← slice n.toNat
    return some tmpStr

def string : Call ByteDecoder Str := do
  let tmp ← int16
  let n := tmp.toInt
  if n < -1 then stop errInvalidStringLength
  else if n = -1 then return []
  else if n = 0 then return []
  else do
    need n
    slice n.toNat

def stringLength : Call ByteDecoder Int := do
  let l ← int16
  let n := l.toInt
  if n < -1 then stop errInvalidStringLength
  else do
    need n
    return n

def nullableString : Call ByteDecoder (Option Str) := do
  let n ← stringLength
  if n = -1 then return none
  else do
    let tmpStr ← slice n.toNat
    return some tmpStr

/-- Fill a slice of `n` elements one after the other. -/
def times (item : Call ByteDecoder α) : Nat → Call ByteDecoder (List α)
  | 0 => return []
  | n + 1 => do
    let x ← item
    let xs ← times item n
    return x :: xs

/-- The number of elements of the array methods, which do not go through `ArrayLength`. -/
def count : Call ByteDecoder Nat := do
  need 4
  fixed 4

def int32Array : Call ByteDecoder (List Int32) := do
  let n ← count
  need (4 * n)
  times (do return Int32.ofNat (← fixed 4)) n

def int64Array : Call ByteDecoder (List Int) := do
  let n ← count
  need (8 * n)
  times (do return ((← fixed 8 : Nat) : Int).bmod (2 ^ 64)) n

def stringArray : Call ByteDecoder (List Str) := do
  let n ← count
  times string n

/-- `Push` of either frame. -/
def push (f : Frame) : Call ByteDecoder Unit := do
  let start ← (⟨fun d => .ok d.off d⟩ : Call ByteDecoder Nat)
  need 4
  ⟨fun d => .ok () { d with off := d.off + 4, stack := (f, start) :: d.stack }⟩

/-- `Check` of a frame that starts at `start`; `crc` stands for `crc32.ChecksumIEEE`. -/
def check (crc : Bytes → UInt32) (f : Frame) (start curOffset : Nat) (b : Bytes) :
    Except Stop Unit :=
  match f with
  | .crc =>
    if start + 4 ≤ curOffset ∧ curOffset ≤ b.length then
      if (crc ((b.take curOffset).drop (start + 4))).toNat = getUint ((b.drop start).take 4) then
        .ok ()
      else .error (.err (.new "crc didn't match"))
    else .error (.panic "slice bounds out of range")
  | .size =>
    if start + 4 ≤ b.length then
      if (((curOffset : Int) - start - 4) % 2 ^ 32).toNat = getUint ((b.drop start).take 4) then
        .ok ()
      else .error (.err (.new "length field invalid"))
    else .error (.panic "index out of range")

def pop (crc : Bytes → UInt32) : Call ByteDecoder Unit := ⟨fun d =>
  match d.stack with
  | [] => .error (.panic "index out of range") d
  | (f, start) :: stack =>
    match check crc f start d.off d.b with
    | .ok _ => .ok () { d with stack }
    | .error why => .error why { d with stack }⟩

/-- `make([]*T, n)` with `n` from `ArrayLength`, and the loop that fills it. -/
def array (item : Call ByteDecoder α) : Call ByteDecoder (List α) := do
  let n ← arrayLength
  times item n

/-- A field that is read in some versions and left `zero` in the others. -/
def when (p : Prop) [Decidable p] (field : Call ByteDecoder α) (zero : α) : Call ByteDecoder α :=
  if p then field else pure zero

/-- What is left to read. -/
def Rest (d : ByteDecoder) (p : Bytes) : Prop := d.off ≤ d.b.length ∧ d.b.drop d.off = p

def skip (d : ByteDecoder) (n : Nat) : ByteDecoder := { d with off := d.off + n }

@[simp] theorem skip_b (d : ByteDecoder) (n : Nat) : (d.skip n).b = d.b := rfl

@[simp] theorem skip_off (d : ByteDecoder) (n : Nat) : (d.skip n).off = d.off + n := rfl

@[simp] theorem skip_zero (d : ByteDecoder) : d.skip 0 = d := rfl

@[simp] theorem skip_skip (d : ByteDecoder) (n m : Nat) : (d.skip n).skip m = d.skip (n + m) := by
  simp only [skip, Nat.add_assoc]

variable {d : ByteDecoder} {p : Bytes}

theorem Rest.length (rest : d.Rest p) : d.b.length = d.off + p.length := by
  obtain ⟨inside, rfl⟩ := rest
  rw [length_drop]
  omega

theorem Rest.skip {rest : Bytes} (here : d.Rest (p ++ rest)) : (d.skip p.length).Rest rest := by
  have length := here.length
  rw [length_append] at length
  refine ⟨?_, ?_⟩
  · rw [skip_off, skip_b]
    omega
  · rw [skip_off, skip_b, ← drop_drop, here.2, drop_left' rfl]

theorem rest_newDecoder (b : Bytes) : (newDecoder b).Rest b := ⟨Nat.zero_le _, rfl⟩

/-- The decoder reads `value` off `p`, whatever follows. -/
def Reads (dec : Call ByteDecoder α) (p : Bytes) (value : α) : Prop :=
  ∀ (d : ByteDecoder) (rest : Bytes), d.Rest (p ++ rest) → dec.run d = .ok value (d.skip p.length)

theorem remaining_run (rest : d.Rest p) : remaining.run d = .ok (p.length : Int) d := by
  have length := rest.length
  have left : (d.b.length : Int) - d.off = p.length := by omega
  simp only [remaining, left]

theorem need_run (rest : d.Rest p) {n : Int}
    (enough : n ≤ p.length) : (need n).run d = .ok () d := by
  unfold need
  rw [bind_ok (remaining_run rest), if_neg (by omega)]
  rfl

namespace Reads

theorem pure (value : α) : Reads (Pure.pure value) [] value := fun _ _ _ => rfl

theorem bind {first : Call ByteDecoder α} {next : α → Call ByteDecoder β} {q : Bytes}
    {x : α} {y : β} (reads : Reads first p x) (readsNext : Reads (next x) q y) :
    Reads (first >>= next) (p ++ q) y := by
  intro d rest here
  rw [append_assoc] at here
  rw [bind_ok (reads d _ here), readsNext _ rest here.skip, skip_skip, length_append]

theorem map {dec : Call ByteDecoder α} {x : α} (reads : Reads dec p x) (f : α → β) :
    Reads (dec >>= fun x => Pure.pure (f x)) p (f x) := by
  have mapped : Reads (dec >>= fun x => Pure.pure (f x)) (p ++ []) (f x) :=
    reads.bind (Reads.pure (f x))
  rwa [append_nil] at mapped

theorem needing {dec : Call ByteDecoder α} {value : α} (reads : Reads dec p value)
    {n : Int} (enough : n ≤ p.length) : Reads (need n >>= fun _ => dec) p value := by
  intro d rest here
  have left : n ≤ (p ++ rest).length := by
    rw [length_append]
    omega
  rw [bind_ok (need_run here left)]
  exact reads d rest here

theorem fixed {width : Nat} (length : p.length = width) : Reads (fixed width) p (getUint p) := by
  intro d rest here
  have total := here.length
  rw [length_append] at total
  have inside : d.off + width ≤ d.b.length := by omega
  simp only [ByteDecoder.fixed, if_pos inside, here.2, take_left' length]
  rw [length]
  rfl

variable {n : Nat}

theorem slice (length : p.length = n) : Reads (slice n) p p := by
  intro d rest here
  have total := here.length
  rw [length_append] at total
  have inside : d.off + n ≤ d.b.length := by omega
  simp only [ByteDecoder.slice, if_pos inside, here.2, take_left' length]
  rw [length]
  rfl

theorem number {width : Nat} (bound : n < 256 ^ width) :
    Reads (ByteDecoder.fixed width) (putUint width n) n := by
  have reads := fixed (length_putUint width n)
  rwa [getUint_putUint, Nat.mod_eq_of_lt bound] at reads

theorem int8 (i : Int8) : Reads int8 (Put.int8 i).raw i := by
  have same : Int8.ofNat i.toUInt8.toNat = i := by
    obtain ⟨u⟩ := i
    exact congrArg Int8.ofUInt8 UInt8.ofNat_toNat
  have value : getUint [i.toUInt8] = i.toUInt8.toNat := by simp [getUint]
  have reads := (fixed (show [i.toUInt8].length = 1 from rfl)).map Int8.ofNat
  rwa [value, same] at reads

theorem bool (b : Bool) : Reads bool (Put.bool b).raw b := by
  have reads := (int8 (if b then 1 else 0)).map fun i => decide (i = 1)
  cases b with
  | true => exact reads
  | false => exact reads

theorem int16 (i : Int16) : Reads int16 (Put.int16 i).raw i := by
  have same : Int16.ofNat i.toUInt16.toNat = i := by
    obtain ⟨u⟩ := i
    exact congrArg Int16.ofUInt16 UInt16.ofNat_toNat
  have reads := (number (show i.toUInt16.toNat < 256 ^ 2 from i.toUInt16.toNat_lt)).map Int16.ofNat
  rwa [same] at reads

theorem word (i : Int32) :
    Reads (do return Int32.ofNat (← ByteDecoder.fixed 4)) (Put.rawInt32 i) i := by
  have same : Int32.ofNat i.toUInt32.toNat = i := by
    obtain ⟨u⟩ := i
    exact congrArg Int32.ofUInt32 UInt32.ofNat_toNat
  have reads := (number (show i.toUInt32.toNat < 256 ^ 4 from i.toUInt32.toNat_lt)).map Int32.ofNat
  rwa [same] at reads

theorem int32 (i : Int32) : Reads int32 (Put.int32 i).raw i :=
  (word i).needing (by simp)

section

variable {i : Int} (lower : -2 ^ 63 ≤ i) (upper : i < 2 ^ 63)
include lower upper

theorem bmod_emod :
    (((i % 2 ^ 64).toNat : Nat) : Int).bmod (2 ^ 64) = i := by
  simp only [Int.bmod]
  omega

theorem double :
    Reads (do return ((← ByteDecoder.fixed 8 : Nat) : Int).bmod (2 ^ 64)) (Put.rawInt64 i) i := by
  have reads := (number (show (i % 2 ^ 64).toNat < 256 ^ 8 by omega)).map
    fun n => (n : Int).bmod (2 ^ 64)
  rwa [bmod_emod lower upper] at reads

theorem int64 :
    Reads int64 (Put.int64 i).raw i :=
  (double lower upper).needing (by simp)

end

theorem raw_length (bound : n < 256 ^ 4) : Put.rawInt32 (Int32.ofNat n) = putUint 4 n := by
  unfold Put.rawInt32
  rw [Int32.toUInt32_ofNat', UInt32.toNat_ofNat', Nat.mod_eq_of_lt (by omega)]

/-- The field of an `ArrayLength` is read if what follows is long enough. -/
theorem arrayLength_run (few : n ≤ maxArrayLength) {rest : Bytes}
    (here : d.Rest ((Put.arrayLength n).raw ++ rest)) (enough : n ≤ rest.length) :
    arrayLength.run d = .ok n (d.skip 4) := by
  have bound : n < 256 ^ 4 := by
    unfold maxArrayLength at few
    omega
  have field : (Put.arrayLength n).raw = putUint 4 n := by
    change Put.rawInt32 (Int32.ofInt n) = _
    rw [Int32.ofInt_eq_ofNat, raw_length bound]
  rw [field] at here
  have after := here.skip
  rw [length_putUint] at after
  have wide : (4 : Int) ≤ (putUint 4 n ++ rest).length := by
    rw [length_append, length_putUint]
    omega
  unfold arrayLength
  rw [bind_ok (need_run here wide), bind_ok (number bound d rest here),
    length_putUint, bind_ok (need_run after (by omega)), if_neg (by omega)]
  rfl

theorem text (s : Str) : Reads (do need s.length; ByteDecoder.slice s.length) s s :=
  (slice rfl).needing (Int.le_refl _)

theorem toInt_length (bound : n ≤ maxInt16) : (Int16.ofNat n).toInt = n :=
  Int16.toInt_ofNat_of_lt (by unfold maxInt16 at bound; omega)

theorem string {s : Str} (short : s.length ≤ maxInt16) : Reads string (Put.rawString s) s := by
  refine (int16 (Int16.ofNat s.length)).bind ?_
  rw [toInt_length short, if_neg (by omega), if_neg (by omega)]
  cases s with
  | nil => exact Reads.pure []
  | cons c s =>
    rw [if_neg (by rw [length_cons]; omega)]
    exact text (c :: s)

theorem nullableString {s : Option Str} (short : (s.getD []).length ≤ maxInt16) :
    Reads nullableString (Put.nullableString s).raw s := by
  cases s with
  | none =>
    have length : Reads stringLength (Put.nullableString none).raw (-1) := by
      have reads := int16 (-1)
      intro d rest here
      unfold stringLength
      rw [bind_ok (reads d rest here)]
      exact bind_ok (need_run here.skip (by change (-1 : Int) ≤ _; omega))
    have reads : Reads ByteDecoder.nullableString ((Put.nullableString none).raw ++ []) none := by
      refine length.bind ?_
      rw [if_pos rfl]
      exact Reads.pure none
    rwa [append_nil] at reads
  | some s =>
    rw [Option.getD_some] at short
    intro d rest here
    have field : (Put.nullableString (some s)).raw = (Put.int16 (Int16.ofNat s.length)).raw ++ s :=
      rfl
    rw [field, append_assoc] at here
    have length : stringLength.run d = .ok (s.length : Int)
        (d.skip (Put.int16 (Int16.ofNat s.length)).raw.length) := by
      unfold stringLength
      rw [bind_ok (int16 _ d _ here), toInt_length short, if_neg (by omega)]
      exact bind_ok (need_run here.skip (by rw [length_append]; omega))
    unfold ByteDecoder.nullableString
    rw [bind_ok length, if_neg (by omega)]
    have copied := ((slice (show s.length = ((s.length : Nat) : Int).toNat from rfl)).map some)
      _ rest here.skip
    rw [copied, skip_skip, field, length_append]

theorem bytes {p : Option Bytes} (short : (p.getD []).length ≤ maxInt32) :
    Reads bytes (Put.bytes p).raw p := by
  cases p with
  | none =>
    have reads : Reads ByteDecoder.bytes ((Put.int32 (-1)).raw ++ []) none := by
      refine (int32 (-1)).bind ?_
      rw [if_neg (by decide), if_pos (by decide)]
      exact Reads.pure none
    rwa [append_nil] at reads
  | some p =>
    have bound : p.length ≤ maxInt32 := short
    have length : (Int32.ofNat p.length).toInt = p.length :=
      Int32.toInt_ofNat_of_lt (by unfold maxInt32 at bound; omega)
    refine (int32 (Int32.ofNat p.length)).bind ?_
    rw [length, if_neg (by omega), if_neg (by omega)]
    cases p with
    | nil => exact Reads.pure (some [])
    | cons c p =>
      rw [if_neg (by rw [length_cons]; omega)]
      exact ((slice rfl).map some).needing (Int.le_refl _)

theorem times {item : Call ByteDecoder α} {raw : α → Bytes} {xs : List α}
    (one : ∀ x ∈ xs, Reads item (raw x) x) : Reads (times item xs.length) (xs.flatMap raw) xs := by
  induction xs with
  | nil => exact Reads.pure []
  | cons x xs ih =>
    rw [flatMap_cons]
    refine (one x (mem_cons_self ..)).bind ?_
    exact (ih fun y inside => one y (mem_cons_of_mem _ inside)).map (x :: ·)

/-- Elements behind their `ArrayLength`. Each takes a byte at least, so there are as many bytes as
the length says. -/
theorem array {item : Call ByteDecoder α} {raw : α → Bytes} {xs : List α}
    (few : xs.length ≤ maxArrayLength) (pos : ∀ x ∈ xs, 0 < (raw x).length)
    (one : ∀ x ∈ xs, Reads item (raw x) x) :
    Reads (array item) ((Put.arrayLength xs.length).raw ++ xs.flatMap raw) xs := by
  have enough : xs.length ≤ (xs.flatMap raw).length := by
    clear few one
    induction xs with
    | nil => exact Nat.le_refl _
    | cons x xs ih =>
      have first := pos x (mem_cons_self ..)
      have rest := ih fun y inside => pos y (mem_cons_of_mem _ inside)
      simp only [flatMap_cons, length_append, length_cons]
      omega
  intro d rest here
  rw [append_assoc] at here
  have number : arrayLength.run d = .ok xs.length (d.skip 4) :=
    arrayLength_run few here (by rw [length_append]; omega)
  unfold ByteDecoder.array
  rw [bind_ok number]
  refine (times one _ rest here.skip).trans ?_
  rw [skip_skip, length_append]

theorem count (bound : n < 256 ^ 4) : Reads count (Put.rawInt32 (Int32.ofNat n)) n := by
  rw [raw_length bound]
  exact (number bound).needing (by simp)

theorem int32Array {is : List Int32} (bound : is.length < 256 ^ 4) :
    Reads int32Array (Put.int32Array is).raw is := by
  refine (count bound).bind ((times fun i _ => word i).needing ?_)
  rw [Put.length_flatMap_fixed Put.length_rawInt32]
  omega

theorem int64Array {is : List Int} (bound : is.length < 256 ^ 4)
    (range : ∀ i ∈ is, -2 ^ 63 ≤ i ∧ i < 2 ^ 63) : Reads int64Array (Put.int64Array is).raw is := by
  refine (count bound).bind
    ((times fun i inside => double (range i inside).1 (range i inside).2).needing ?_)
  rw [Put.length_flatMap_fixed Put.length_rawInt64]
  omega

theorem stringArray {ss : List Str} (bound : ss.length < 256 ^ 4)
    (short : ∀ s ∈ ss, s.length ≤ maxInt16) : Reads stringArray (Put.stringArray ss).raw ss :=
  (count bound).bind (times fun s inside => string (short s inside))

end Reads

theorem getUint_lt (p : Bytes) : getUint p < 256 ^ p.length := by
  have accumulate (acc : Nat) : p.foldl (fun acc byte => acc * 256 + byte.toNat) acc <
      (acc + 1) * 256 ^ p.length := by
    induction p generalizing acc with
    | nil => simp
    | cons byte p ih =>
      have low : byte.toNat < 256 := byte.toNat_lt
      calc p.foldl (fun acc byte => acc * 256 + byte.toNat) (acc * 256 + byte.toNat)
          < (acc * 256 + byte.toNat + 1) * 256 ^ p.length := ih _
        _ ≤ ((acc + 1) * 256) * 256 ^ p.length := Nat.mul_le_mul_right _ (by omega)
        _ = (acc + 1) * 256 ^ (byte :: p).length := by
          rw [length_cons, Nat.pow_succ', Nat.mul_assoc]
  have whole := accumulate 0
  rwa [Nat.zero_add, Nat.one_mul] at whole

/-- What a returning decoder took: as many bytes as its value says, and no more than there were. -/
def Uses (dec : Call ByteDecoder α) (size : α → Nat) (Ok : α → Prop) : Prop :=
  ∀ (d d' : ByteDecoder) (value : α), d.off ≤ d.b.length → dec.run d = .ok value d' →
    Ok value ∧ d' = d.skip (size value) ∧ d.off + size value ≤ d.b.length

namespace Uses

variable {dec : Call ByteDecoder α} {size : α → Nat} {Ok : α → Prop}

theorem pure {value : α} (ok : Ok value) (nothing : size value = 0) :
    Uses (Pure.pure value) size Ok := by
  rintro d d' _ inside ⟨⟩
  rw [nothing]
  exact ⟨ok, rfl, inside⟩

theorem stop (why : Stop) : Uses (Go.stop why) size Ok := by
  rintro d d' _ inside ⟨⟩

theorem congr (uses : Uses dec size Ok) {t : α → Nat} {Q : α → Prop}
    (same : ∀ x, Ok x → Q x ∧ t x = size x) : Uses dec t Q := by
  intro d d' value inside ran
  obtain ⟨ok, moved⟩ := uses d d' value inside ran
  obtain ⟨ok', equal⟩ := same value ok
  rw [equal]
  exact ⟨ok', moved⟩

theorem bind {next : α → Call ByteDecoder β} {t : α → β → Nat} {Q : α → β → Prop} {u : β → Nat}
    {R : β → Prop} (uses : Uses dec size Ok) (usesNext : ∀ x, Ok x → Uses (next x) (t x) (Q x))
    (both : ∀ x y, Ok x → Q x y → R y ∧ u y = size x + t x y) : Uses (dec >>= next) u R := by
  intro d d' value inside ran
  obtain ⟨x, d₁, ran₁, rest⟩ := bind_eq_ok ran
  obtain ⟨ok, rfl, within⟩ := uses d d₁ x inside ran₁
  obtain ⟨okNext, rfl, withinNext⟩ := usesNext x ok _ _ _ within rest
  obtain ⟨okBoth, total⟩ := both x value ok okNext
  rw [skip_off, skip_b, Nat.add_assoc] at withinNext
  rw [total]
  exact ⟨okBoth, skip_skip .., withinNext⟩

theorem map {f : α → β} {t : β → Nat} {Q : β → Prop} (uses : Uses dec size Ok)
    (same : ∀ x, Ok x → Q (f x) ∧ t (f x) = size x) :
    Uses (dec >>= fun x => Pure.pure (f x)) t Q := by
  refine uses.bind (t := fun _ _ => 0) (Q := fun x y => y = f x) (fun x _ => pure rfl rfl) ?_
  rintro x y ok rfl
  exact same x ok

theorem need_eq_ok {n : Int} {d' : ByteDecoder} (ran : (need n).run d = .ok () d') :
    d' = d ∧ n ≤ (d.b.length : Int) - d.off := by
  change ((if (d.b.length : Int) - d.off < n then insufficient else Pure.pure () :
    Call ByteDecoder Unit).run d) = _ at ran
  split at ran
  · cases ran
  · cases ran
    exact ⟨rfl, by omega⟩

theorem needing (n : Int) (uses : Uses dec size Ok) : Uses (need n >>= fun _ => dec) size Ok := by
  intro d d' value inside ran
  obtain ⟨_, d₁, ran₁, rest⟩ := bind_eq_ok ran
  obtain ⟨rfl, -⟩ := need_eq_ok ran₁
  exact uses _ d' value inside rest

theorem fixed (width : Nat) : Uses (fixed width) (fun _ => width) (· < 256 ^ width) := by
  intro d d' value inside ran
  unfold ByteDecoder.fixed at ran
  simp only at ran
  split at ran
  · rename_i within
    cases ran
    refine ⟨?_, rfl, within⟩
    have bound := getUint_lt ((d.b.drop d.off).take width)
    rwa [length_take, length_drop, Nat.min_eq_left (by omega)] at bound
  · cases ran

theorem slice (n : Nat) : Uses (slice n) List.length (·.length = n) := by
  intro d d' value inside ran
  unfold ByteDecoder.slice at ran
  simp only at ran
  split at ran
  · rename_i within
    cases ran
    have length : ((d.b.drop d.off).take n).length = n := by
      rw [length_take, length_drop]
      omega
    refine ⟨length, ?_, ?_⟩
    · rw [length]
      rfl
    · rwa [length]
  · cases ran

theorem int8 : Uses int8 (fun _ => 1) fun _ => True :=
  (fixed 1).map fun _ _ => ⟨trivial, rfl⟩

theorem bool : Uses bool (fun _ => 1) fun _ => True :=
  int8.map fun _ _ => ⟨trivial, rfl⟩

theorem int16 : Uses int16 (fun _ => 2) fun _ => True :=
  (fixed 2).map fun _ _ => ⟨trivial, rfl⟩

theorem word : Uses (do return Int32.ofNat (← ByteDecoder.fixed 4)) (fun _ => 4) fun _ => True :=
  (fixed 4).map fun _ _ => ⟨trivial, rfl⟩

theorem int32 : Uses int32 (fun _ => 4) fun _ => True := word.needing 4

theorem double : Uses (do return ((← ByteDecoder.fixed 8 : Nat) : Int).bmod (2 ^ 64))
    (fun _ => 8) fun i => -2 ^ 63 ≤ i ∧ i < 2 ^ 63 := by
  refine (fixed 8).map fun n _ => ⟨?_, rfl⟩
  simp only [Int.bmod]
  omega

theorem int64 : Uses int64 (fun _ => 8) fun i => -2 ^ 63 ≤ i ∧ i < 2 ^ 63 := double.needing 8

theorem arrayLength : Uses arrayLength (fun _ => 4) (· ≤ maxArrayLength) := by
  refine needing 4 ((fixed 4).bind (t := fun _ _ => 0) (Q := fun _ n => n ≤ maxArrayLength) ?_ ?_)
  · intro n _
    refine needing n ?_
    split
    · exact stop _
    · exact pure (by omega) rfl
  · intro _ n _ few
    exact ⟨few, rfl⟩

theorem string : Uses string (fun s => 2 + s.length) (·.length ≤ maxInt16) := by
  refine int16.bind (t := fun _ s => s.length) (Q := fun _ s => s.length ≤ maxInt16) ?_ ?_
  · intro tmp _
    have bound : tmp.toInt < 32768 := tmp.toInt_lt
    dsimp only
    split
    · exact stop _
    · split
      · exact pure (Nat.zero_le _) rfl
      · split
        · exact pure (Nat.zero_le _) rfl
        · refine ((slice _).congr fun s length => ⟨?_, rfl⟩).needing _
          rw [length, maxInt16]
          omega
  · intro _ s _ short
    exact ⟨short, rfl⟩

theorem stringLength : Uses stringLength (fun _ => 2) fun n => -1 ≤ n ∧ n ≤ maxInt16 := by
  refine int16.bind (t := fun _ _ => 0) (Q := fun _ (n : Int) => -1 ≤ n ∧ n ≤ maxInt16) ?_ ?_
  · intro tmp _
    have bound : tmp.toInt < 32768 := tmp.toInt_lt
    dsimp only
    split
    · exact stop _
    · have limit : (maxInt16 : Int) = 32767 := rfl
      exact needing _ (pure ⟨by omega, by omega⟩ rfl)
  · intro _ n _ bounds
    exact ⟨bounds, rfl⟩

theorem nullableString : Uses nullableString (fun s => 2 + (s.getD []).length)
    fun s => (s.getD []).length ≤ maxInt16 := by
  refine stringLength.bind (t := fun _ s => (s.getD []).length)
    (Q := fun _ s => (s.getD []).length ≤ maxInt16) ?_ ?_
  · intro n bounds
    split
    · exact pure (Nat.zero_le _) rfl
    · refine (slice _).map fun s length => ⟨?_, rfl⟩
      rw [Option.getD_some, length]
      omega
  · intro _ s _ short
    exact ⟨short, rfl⟩

theorem bytes : Uses bytes (fun p => 4 + (p.getD []).length)
    fun p => (p.getD []).length ≤ maxInt32 := by
  refine int32.bind (t := fun _ p => (p.getD []).length)
    (Q := fun _ p => (p.getD []).length ≤ maxInt32) ?_ ?_
  · intro tmp _
    have bound : tmp.toInt < 2147483648 := tmp.toInt_lt
    dsimp only
    split
    · exact stop _
    · split
      · exact pure (Nat.zero_le _) rfl
      · split
        · exact pure (Nat.zero_le _) rfl
        · refine needing _ ((slice _).map fun p length => ⟨?_, rfl⟩)
          rw [Option.getD_some, length, maxInt32]
          omega
  · intro _ p _ short
    exact ⟨short, rfl⟩

theorem times (one : Uses dec size Ok) (n : Nat) :
    Uses (times dec n) (fun xs => (xs.map size).sum) fun xs => xs.length = n ∧ ∀ x ∈ xs, Ok x := by
  induction n with
  | zero => exact pure ⟨rfl, by simp⟩ rfl
  | succ n ih =>
    refine one.bind (t := fun _ xs => (xs.tail.map size).sum)
      (Q := fun x xs => ∃ rest, xs = x :: rest ∧ rest.length = n ∧ ∀ y ∈ rest, Ok y) ?_ ?_
    · intro x _
      exact ih.map fun rest ⟨length, oks⟩ => ⟨⟨rest, rfl, length, oks⟩, rfl⟩
    · rintro x _ ok ⟨rest, rfl, length, oks⟩
      simp only [length_cons, length, mem_cons, forall_eq_or_imp]
      exact ⟨⟨trivial, ok, oks⟩, rfl⟩

theorem count : Uses count (fun _ => 4) (· < 256 ^ 4) := (fixed 4).needing 4

theorem counted {number : Call ByteDecoder Nat} {Q : Nat → Prop}
    (counts : Uses number (fun _ => 4) Q) {next : Nat → Call ByteDecoder (List α)}
    (all : ∀ n, Uses (next n) (fun xs => (xs.map size).sum)
      fun xs => xs.length = n ∧ ∀ x ∈ xs, Ok x) :
    Uses (number >>= next) (fun xs => 4 + (xs.map size).sum)
      fun xs => Q xs.length ∧ ∀ x ∈ xs, Ok x := by
  refine counts.bind (fun n _ => all n) ?_
  rintro n xs few ⟨rfl, oks⟩
  exact ⟨⟨few, oks⟩, rfl⟩

theorem array (one : Uses dec size Ok) : Uses (array dec) (fun xs => 4 + (xs.map size).sum)
      fun xs => xs.length ≤ maxArrayLength ∧ ∀ x ∈ xs, Ok x :=
  arrayLength.counted one.times

theorem stringArray : Uses stringArray (fun ss => 4 + (ss.map fun s => 2 + s.length).sum)
    fun ss => ss.length < 256 ^ 4 ∧ ∀ s ∈ ss, s.length ≤ maxInt16 :=
  count.counted string.times

theorem int32Array : Uses int32Array (fun is => 4 + (is.map fun _ => 4).sum)
    fun is => is.length < 256 ^ 4 ∧ ∀ i ∈ is, True :=
  count.counted fun n => (word.times n).needing (4 * n)

end Uses

end ByteDecoder

end Jocko.Protocol
