import Jocko.Protocol.Decoder
import Mathlib.Tactic.Simps.Basic

namespace Jocko.Protocol

open Go ByteDecoder List

variable {α β : Type}

/-- The bytes of plain calls. -/
def rawOf (ops : List Put) : Bytes := ops.flatMap Put.raw

@[simp] theorem rawOf_nil : rawOf [] = [] := rfl

@[simp] theorem rawOf_cons (op : Put) (ops : List Put) : rawOf (op :: ops) = op.raw ++ rawOf ops :=
  rfl

@[simp] theorem rawOf_append (ops more : List Put) :
    rawOf (ops ++ more) = rawOf ops ++ rawOf more := flatMap_append

theorem rawOf_flatMap (lay : α → List Put) (xs : List α) :
    rawOf (xs.flatMap lay) = xs.flatMap fun x => rawOf (lay x) := flatMap_assoc

/-- How many bytes plain calls store. -/
def sizeOf (ops : List Put) : Nat := (rawOf ops).length

@[simp] theorem sizeOf_nil : sizeOf [] = 0 := rfl

@[simp] theorem sizeOf_cons (op : Put) (ops : List Put) :
    sizeOf (op :: ops) = op.raw.length + sizeOf ops := by
  simp [sizeOf]

@[simp] theorem sizeOf_append (ops more : List Put) :
    sizeOf (ops ++ more) = sizeOf ops + sizeOf more := by
  simp [sizeOf]

@[simp] theorem sizeOf_flatMap (lay : α → List Put) (xs : List α) :
    sizeOf (xs.flatMap lay) = (xs.map fun x => sizeOf (lay x)).sum := by
  induction xs with
  | nil => rfl
  | cons x xs ih => rw [flatMap_cons, sizeOf_append, ih, map_cons, sum_cons]

/-- The calls that elements start with: each stores a byte at least. -/
class Put.Leads (op : Put) : Prop where
  pos : 0 < op.raw.length

instance (i : Int8) : (Put.int8 i).Leads := ⟨by simp [Put.raw]⟩

instance (i : Int16) : (Put.int16 i).Leads := ⟨by simp [Put.raw]⟩

instance (i : Int32) : (Put.int32 i).Leads := ⟨by simp [Put.raw]⟩

instance (i : Int) : (Put.int64 i).Leads := ⟨by simp [Put.raw]⟩

instance (s : Str) : (Put.string s).Leads := ⟨by simp [Put.raw, Nat.add_pos_left]⟩

theorem sizeOf_pos {lay : α → List Put} {op : α → Put} {ops : α → List Put} [∀ x, (op x).Leads]
    (lays : ∀ x, lay x = op x :: ops x) (x : α) : 0 < sizeOf (lay x) := by
  rw [lays, sizeOf_cons]
  exact Nat.add_pos_left Put.Leads.pos _

/-- A decoder and the calls whose bytes it reads: from these bytes it gets the value back, and
whenever it returns a value it took as many bytes as they are. -/
structure Codec (α : Type) where
  dec : Call ByteDecoder α
  lay : α → List Put
  Ok : α → Prop
  plain : ∀ x, ∀ op ∈ lay x, op.Plain
  reads : ∀ x, Ok x → Reads dec (rawOf (lay x)) x
  uses : Uses dec (fun x => sizeOf (lay x)) Ok

namespace Codec

/-- A primitive that reads what one call stored. -/
def prim (dec : Call ByteDecoder α) (put : α → Put) (Ok : α → Prop) (plain : ∀ x, (put x).Plain)
    (reads : ∀ x, Ok x → Reads dec (put x).raw x) (uses : Uses dec (fun x => (put x).raw.length) Ok) :
    Codec α where
  dec := dec
  lay x := [put x]
  Ok := Ok
  plain x op inside := by
    rw [List.mem_singleton.mp inside]
    exact plain x
  reads x ok := by
    simpa using reads x ok
  uses := by
    simpa using uses

@[simps! dec lay Ok] def bool : Codec Bool :=
  prim ByteDecoder.bool .bool (fun _ => True) (fun _ => trivial) (fun b _ => Reads.bool b) Uses.bool

@[simps! dec lay Ok] def int8 : Codec Int8 :=
  prim ByteDecoder.int8 .int8 (fun _ => True) (fun _ => trivial) (fun i _ => Reads.int8 i) Uses.int8

@[simps! dec lay Ok] def int16 : Codec Int16 :=
  prim ByteDecoder.int16 .int16 (fun _ => True) (fun _ => trivial) (fun i _ => Reads.int16 i)
    (Uses.int16.congr fun _ _ => ⟨trivial, length_putUint ..⟩)

@[simps! dec lay Ok] def int32 : Codec Int32 :=
  prim ByteDecoder.int32 .int32 (fun _ => True) (fun _ => trivial) (fun i _ => Reads.int32 i)
    (Uses.int32.congr fun _ _ => ⟨trivial, length_putUint ..⟩)

@[simps! dec lay Ok] def int64 : Codec Int :=
  prim ByteDecoder.int64 .int64 (fun i => -2 ^ 63 ≤ i ∧ i < 2 ^ 63) (fun _ => trivial)
    (fun _ range => Reads.int64 range.1 range.2)
    (Uses.int64.congr fun _ range => ⟨range, length_putUint ..⟩)

@[simps! dec lay Ok] def string : Codec Str :=
  prim ByteDecoder.string .string (·.length ≤ maxInt16) (fun _ => trivial)
    (fun _ short => Reads.string short)
    (Uses.string.congr fun s short => ⟨short, Put.length_rawString s⟩)

theorem length_raw_nullableString (s : Option Str) :
    (Put.nullableString s).raw.length = 2 + (s.getD []).length := by
  cases s with
  | none => rfl
  | some s => exact Put.length_rawString s

theorem length_raw_bytes (p : Option Bytes) :
    (Put.bytes p).raw.length = 4 + (p.getD []).length := by
  cases p with
  | none => rfl
  | some p =>
    change (Put.rawInt32 _ ++ p).length = _
    rw [length_append, Put.length_rawInt32]
    rfl

theorem length_raw_stringArray (ss : List Str) :
    (Put.stringArray ss).raw.length = 4 + (ss.map fun s => 2 + s.length).sum := by
  change (Put.rawInt32 _ ++ ss.flatMap Put.rawString).length = _
  simp only [length_append, Put.length_rawInt32, length_flatMap, Put.length_rawString]

theorem length_raw_int32Array (is : List Int32) :
    (Put.int32Array is).raw.length = 4 + (is.map fun _ => 4).sum := by
  change (Put.rawInt32 _ ++ is.flatMap Put.rawInt32).length = _
  simp only [length_append, Put.length_rawInt32, length_flatMap]

@[simps! dec lay Ok] def nullableString : Codec (Option Str) :=
  prim ByteDecoder.nullableString .nullableString (fun s => (s.getD []).length ≤ maxInt16)
    (fun _ => trivial) (fun _ short => Reads.nullableString short)
    (Uses.nullableString.congr fun s short => ⟨short, length_raw_nullableString s⟩)

@[simps! dec lay Ok] def bytes : Codec (Option Bytes) :=
  prim ByteDecoder.bytes .bytes (fun p => (p.getD []).length ≤ maxInt32)
    (fun _ => trivial) (fun _ short => Reads.bytes short)
    (Uses.bytes.congr fun p short => ⟨short, length_raw_bytes p⟩)

@[simps! dec lay Ok] def stringArray : Codec (List Str) :=
  prim ByteDecoder.stringArray .stringArray
    (fun ss => ss.length < 256 ^ 4 ∧ ∀ s ∈ ss, s.length ≤ maxInt16)
    (fun _ => trivial) (fun _ ok => Reads.stringArray ok.1 ok.2)
    (Uses.stringArray.congr fun ss ok => ⟨ok, length_raw_stringArray ss⟩)

@[simps! dec lay Ok] def int32Array : Codec (List Int32) :=
  prim ByteDecoder.int32Array .int32Array (·.length < 256 ^ 4)
    (fun _ => trivial) (fun _ bound => Reads.int32Array bound)
    (Uses.int32Array.congr fun is ok => ⟨ok.1, length_raw_int32Array is⟩)

/-- A value that is not on the wire. -/
@[simps dec lay Ok]
def absent (value : α) : Codec α where
  dec := pure value
  lay _ := []
  Ok := (· = value)
  plain _ _ inside := (List.not_mem_nil inside).elim
  reads _ same := by
    rw [same]
    exact Reads.pure value
  uses := Uses.pure rfl rfl

/-- A field that is there in some versions only. -/
@[simps dec lay Ok]
def when (p : Prop) [Decidable p] (c : Codec α) (zero : α) : Codec α where
  dec := ByteDecoder.when p c.dec zero
  lay x := if p then c.lay x else []
  Ok x := if p then c.Ok x else x = zero
  plain x := by
    split
    · exact c.plain x
    · exact (absent zero).plain x
  reads x ok := by
    unfold ByteDecoder.when
    by_cases here : p
    · simp only [if_pos here] at ok ⊢
      exact c.reads x ok
    · simp only [if_neg here] at ok ⊢
      exact (absent zero).reads x ok
  uses := by
    unfold ByteDecoder.when
    split
    · exact c.uses
    · exact (absent zero).uses

/-- One after the other. -/
@[simps dec lay Ok]
def pair (first : Codec α) (second : Codec β) : Codec (α × β) where
  dec := do
    let x ← first.dec
    let y ← second.dec
    return (x, y)
  lay p := first.lay p.1 ++ second.lay p.2
  Ok p := first.Ok p.1 ∧ second.Ok p.2
  plain p op inside := by
    rcases List.mem_append.mp inside with left | right
    · exact first.plain p.1 op left
    · exact second.plain p.2 op right
  reads p ok := by
    rw [rawOf_append]
    exact (first.reads p.1 ok.1).bind ((second.reads p.2 ok.2).map fun y => (p.1, y))
  uses := by
    refine first.uses.bind (t := fun _ p => sizeOf (second.lay p.2))
      (Q := fun x p => p.1 = x ∧ second.Ok p.2) ?_ ?_
    · intro x _
      exact second.uses.map fun y ok => ⟨⟨rfl, ok⟩, rfl⟩
    · rintro x ⟨_, y⟩ ok ⟨rfl, okNext⟩
      exact ⟨⟨ok, okNext⟩, sizeOf_append ..⟩

/-- A structure with the fields `un` gives and `mk` puts together. -/
@[simps dec lay Ok]
def iso (c : Codec α) (mk : α → β) (un : β → α)
    (left : ∀ x, un (mk x) = x := by intro; rfl) : Codec β where
  dec := do
    let x ← c.dec
    return mk x
  lay y := c.lay (un y)
  Ok y := c.Ok (un y) ∧ mk (un y) = y
  plain y := c.plain (un y)
  reads y ok := by
    have read := (c.reads (un y) ok.1).map mk
    rwa [ok.2] at read
  uses := c.uses.map fun x ok => by
    rw [left]
    exact ⟨⟨ok, rfl⟩, rfl⟩

/-- The same bytes from other calls. -/
@[simps dec lay Ok]
def relay (c : Codec α) (lay : α → List Put) (plain : ∀ x, ∀ op ∈ lay x, op.Plain)
    (same : ∀ x, rawOf (lay x) = rawOf (c.lay x)) : Codec α where
  dec := c.dec
  lay := lay
  Ok := c.Ok
  plain := plain
  reads x ok := by
    rw [same]
    exact c.reads x ok
  uses := c.uses.congr fun x ok => ⟨ok, congrArg List.length (same x)⟩

/-- Every value takes a byte at least. -/
abbrev Pos (c : Codec α) : Prop := ∀ x, 0 < sizeOf (c.lay x)

/-- Elements behind their `ArrayLength`. -/
@[simps dec lay Ok]
def array (c : Codec α) (pos : c.Pos := by exact sizeOf_pos fun _ => rfl) : Codec (List α) where
  dec := ByteDecoder.array c.dec
  lay xs := .arrayLength xs.length :: xs.flatMap c.lay
  Ok xs := xs.length ≤ maxArrayLength ∧ ∀ x ∈ xs, c.Ok x
  plain xs op inside := by
    rcases List.mem_cons.mp inside with rfl | rest
    · trivial
    · obtain ⟨x, _, here⟩ := List.mem_flatMap.mp rest
      exact c.plain x op here
  reads xs ok := by
    rw [rawOf_cons, rawOf_flatMap]
    exact Reads.array ok.1 (fun x _ => pos x) fun x inside => c.reads x (ok.2 x inside)
  uses := c.uses.array.congr fun xs ok => by
    refine ⟨ok, ?_⟩
    rw [sizeOf_cons, sizeOf_flatMap]
    rfl

end Codec

/-- `Decode` at the end of the bytes that `Encode` made gives `value`. -/
def RoundTrips (puts : List Put) (decode : Call ByteDecoder α) (value : α) : Prop :=
  ∃ b, encode puts = .ok b ∧ decode.run (newDecoder b) = .ok value ⟨b, b.length, []⟩

theorem ByteDecoder.Reads.whole {dec : Call ByteDecoder α} {p : Bytes} {value : α}
    (reads : Reads dec p value) : dec.run (newDecoder p) = .ok value ⟨p, p.length, []⟩ := by
  have here : (newDecoder p).Rest (p ++ []) := by
    rw [append_nil]
    exact rest_newDecoder p
  rw [reads _ [] here]
  simp only [newDecoder, skip, Nat.zero_add]

/-- A decoder that returns whatever the first one returns, and perhaps more. -/
def Extends (first second : Call ByteDecoder α) : Prop :=
  ∀ (d d' : ByteDecoder) (value : α), first.run d = .ok value d' → second.run d = .ok value d'

namespace Extends

theorem refl (dec : Call ByteDecoder α) : Extends dec dec := fun _ _ _ ran => ran

theorem bind {first second : Call ByteDecoder α} {next next' : α → Call ByteDecoder β}
    (extends' : Extends first second) (rest : ∀ x, Extends (next x) (next' x)) :
    Extends (first >>= next) (second >>= next') := by
  intro d d' value ran
  obtain ⟨x, d₁, ran₁, ran₂⟩ := bind_eq_ok ran
  rw [bind_ok (extends' _ _ _ ran₁)]
  exact rest x _ _ _ ran₂

theorem times {first second : Call ByteDecoder α} (extends' : Extends first second) (n : Nat) :
    Extends (ByteDecoder.times first n) (ByteDecoder.times second n) := by
  induction n with
  | zero => exact refl _
  | succ n ih => exact extends'.bind fun x => ih.bind fun xs => refl _

theorem array {first second : Call ByteDecoder α} (extends' : Extends first second) :
    Extends (ByteDecoder.array first) (ByteDecoder.array second) :=
  (refl _).bind extends'.times

end Extends

variable {puts : List Put}

theorem RoundTrips.extends {first second : Call ByteDecoder α} {value : α}
    (survives : RoundTrips puts first value) (extends' : Extends first second) :
    RoundTrips puts second value := by
  obtain ⟨b, encoded, decoded⟩ := survives
  exact ⟨b, encoded, extends' _ _ _ decoded⟩

theorem fits_of_encodeWith {crc : Bytes → UInt32} {b : Bytes}
    (encoded : encodeWith crc puts = .ok b) : ∀ op ∈ puts, op.Fits := by
  unfold encodeWith at encoded
  cases length : lenEncode puts with
  | error why =>
    rw [length] at encoded
    cases encoded
  | ok n => exact (lenEncode_eq_ok.mp length).1

theorem fits_of_encode {b : Bytes} (encoded : encode puts = .ok b) :
    ∀ op ∈ puts, op.Fits := fits_of_encodeWith encoded

/-- What a message that survives says of the calls that encode it. -/
theorem RoundTrips.uses {decode : Call ByteDecoder α} {value : α}
    (survives : RoundTrips puts decode value) (plain : ∀ op ∈ puts, op.Plain)
    {size : α → Nat} {Ok : α → Prop} (uses : Uses decode size Ok) :
    (∀ op ∈ puts, op.Fits) ∧ Ok value ∧ size value = sizeOf puts := by
  obtain ⟨b, encoded, decoded⟩ := survives
  have fits := fits_of_encode encoded
  have raw := encode_plain plain fits
  rw [encoded] at raw
  obtain ⟨ok, moved, -⟩ := uses _ _ value (Nat.zero_le _) decoded
  have place : b.length = 0 + size value := congrArg ByteDecoder.off moved
  cases raw
  refine ⟨fits, ok, ?_⟩
  rw [Nat.zero_add] at place
  exact place.symm

namespace Codec

/-- The values that `Encode` accepts and `Decode` gives back. -/
def Fit (c : Codec α) (x : α) : Prop := (∀ op ∈ c.lay x, op.Fits) ∧ c.Ok x

section Fit

variable {c : Codec α} {d : Codec β}

@[simp] theorem fit_bool (b : Bool) : bool.Fit b := by simp [Fit, Put.Fits]

@[simp] theorem fit_int8 (i : Int8) : int8.Fit i := by simp [Fit, Put.Fits]

@[simp] theorem fit_int16 (i : Int16) : int16.Fit i := by simp [Fit, Put.Fits]

@[simp] theorem fit_int32 (i : Int32) : int32.Fit i := by simp [Fit, Put.Fits]

@[simp] theorem fit_int64 {i : Int} : int64.Fit i ↔ -2 ^ 63 ≤ i ∧ i < 2 ^ 63 := by
  simp [Fit, Put.Fits]

@[simp] theorem fit_string {s : Str} : string.Fit s ↔ s.length ≤ maxInt16 := by
  simp [Fit, Put.Fits]

@[simp] theorem fit_nullableString {s : Option Str} :
    nullableString.Fit s ↔ (s.getD []).length ≤ maxInt16 := by
  simp [Fit, Put.Fits]

@[simp] theorem fit_bytes {p : Option Bytes} : bytes.Fit p ↔ (p.getD []).length ≤ maxInt32 := by
  simp [Fit, Put.Fits]

@[simp] theorem fit_stringArray {ss : List Str} :
    stringArray.Fit ss ↔ ss.length ≤ maxInt32 ∧ ∀ s ∈ ss, s.length ≤ maxInt16 := by
  simp only [Fit, stringArray_lay, mem_singleton, forall_eq, Put.Fits, stringArray_Ok]
  have limit : maxInt32 < 256 ^ 4 := by decide
  constructor
  · rintro ⟨fits, -⟩
    exact fits
  · rintro ⟨few, short⟩
    exact ⟨⟨few, short⟩, by omega, short⟩

@[simp] theorem fit_int32Array {is : List Int32} : int32Array.Fit is ↔ is.length ≤ maxInt32 := by
  simp only [Fit, int32Array_lay, mem_singleton, forall_eq, Put.Fits, int32Array_Ok]
  have limit : maxInt32 < 256 ^ 4 := by decide
  omega

@[simp] theorem fit_absent {value x : α} : (absent value).Fit x ↔ x = value := by simp [Fit]

@[simp] theorem fit_when {p : Prop} [Decidable p] {zero x : α} :
    (when p c zero).Fit x ↔ if p then c.Fit x else x = zero := by
  unfold Fit
  by_cases here : p <;> simp [here]

@[simp] theorem fit_pair {p : α × β} : (pair c d).Fit p ↔ c.Fit p.1 ∧ d.Fit p.2 := by
  simp only [Fit, pair_lay, pair_Ok, mem_append, or_imp, forall_and]
  constructor
  · rintro ⟨⟨first, second⟩, ok, okNext⟩
    exact ⟨⟨first, ok⟩, second, okNext⟩
  · rintro ⟨⟨first, ok⟩, second, okNext⟩
    exact ⟨⟨first, second⟩, ok, okNext⟩

@[simp] theorem fit_iso {mk : α → β} {un : β → α} {left : ∀ x, un (mk x) = x} {y : β} :
    (iso c mk un left).Fit y ↔ c.Fit (un y) ∧ mk (un y) = y := by
  simp only [Fit, iso_lay, iso_Ok, and_assoc]

@[simp] theorem fit_array {pos : c.Pos} {xs : List α} :
    (array c pos).Fit xs ↔ xs.length ≤ maxArrayLength ∧ ∀ x ∈ xs, c.Fit x := by
  have limit : maxArrayLength ≤ maxInt32 := by decide
  simp only [Fit, array_lay, array_Ok, mem_cons, mem_flatMap]
  constructor
  · rintro ⟨fits, few, ok⟩
    exact ⟨few, fun x inside =>
      ⟨fun op here => fits op (.inr ⟨x, inside, here⟩), ok x inside⟩⟩
  · rintro ⟨few, fit⟩
    refine ⟨?_, few, fun x inside => (fit x inside).2⟩
    rintro op (rfl | ⟨x, inside, here⟩)
    · change (xs.length : Int) ≤ maxInt32
      omega
    · exact (fit x inside).1 op here

end Fit

variable {puts : List Put} {dec : Call ByteDecoder α} {value : α}

/-- Where `Encode` makes the calls whose bytes `Decode` reads, exactly the values that both accept
survive. -/
theorem roundTrips_iff (c : Codec α) (laid : puts = c.lay value) (read : dec = c.dec) :
    RoundTrips puts dec value ↔ c.Fit value := by
  subst laid read
  constructor
  · intro survives
    obtain ⟨fits, ok, -⟩ := survives.uses (c.plain value) c.uses
    exact ⟨fits, ok⟩
  · rintro ⟨fits, ok⟩
    exact ⟨rawOf (c.lay value), encode_plain (c.plain value) fits, (c.reads value ok).whole⟩

theorem carries {limits : Prop} (c : Codec α) (coded : puts = c.lay value ∧ dec = c.dec)
    (fit : c.Fit value ↔ limits) : RoundTrips puts dec value ↔ limits :=
  (c.roundTrips_iff coded.1 coded.2).trans fit

/-- A message is lost if the calls that encode it store more or fewer bytes than the decoder
takes for it. -/
theorem not_roundTrips (c : Codec α) (plain : ∀ op ∈ puts, op.Plain)
    (differ : sizeOf puts ≠ sizeOf (c.lay value)) : ¬ RoundTrips puts c.dec value := by
  intro survives
  obtain ⟨-, -, same⟩ := survives.uses plain c.uses
  exact differ same.symm

end Codec

end Jocko.Protocol
