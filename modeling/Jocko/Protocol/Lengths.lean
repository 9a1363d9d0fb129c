import Jocko.Protocol.Safety

namespace Jocko.Protocol

open Go ByteDecoder

/-- The methods of the decoder that start with a length in four bytes. -/
inductive Collection where
  | arrayLength
  | int32Array
  | int64Array
  | stringArray
  | bytes

namespace Collection

/-- How many elements the method has room made for, or, where it makes none, how many it
reports: its body up to the `make`. -/
def made : Collection → Call ByteDecoder Nat
  | .arrayLength => ByteDecoder.arrayLength
  | .int32Array => do
    let n ← count
    need (4 * n)
    return n
  | .int64Array => do
    let n ← count
    need (8 * n)
    return n
  | .stringArray => count
  | .bytes => do
    let p ← ByteDecoder.bytes
    return (p.getD []).length

/-- How many elements are in what the whole method returns. -/
def returned : Collection → Call ByteDecoder Nat
  | .arrayLength => ByteDecoder.arrayLength
  | .int32Array => do return (← ByteDecoder.int32Array).length
  | .int64Array => do return (← ByteDecoder.int64Array).length
  | .stringArray => do return (← ByteDecoder.stringArray).length
  | .bytes => do
    let p ← ByteDecoder.bytes
    return (p.getD []).length

end Collection

theorem int32Array_eq : int32Array =
    Collection.made .int32Array >>= times (do return Int32.ofNat (← fixed 4)) := by
  simp only [int32Array, Collection.made, bind_assoc, pure_bind]

theorem int64Array_eq : int64Array = Collection.made .int64Array >>=
    times (do return ((← fixed 8 : Nat) : Int).bmod (2 ^ 64)) := by
  simp only [int64Array, Collection.made, bind_assoc, pure_bind]

variable {n : Nat} {d d' : ByteDecoder}

theorem length_filled {α : Type} {number : Call ByteDecoder Nat} {item : Call ByteDecoder α}
    (ran : (do return (← number >>= times item).length : Call ByteDecoder Nat).run d = .ok n d') :
    ∃ d₁, number.run d = .ok n d₁ := by
  obtain ⟨xs, d₂, filled, rest⟩ := bind_eq_ok ran
  obtain ⟨m, d₁, counted, items⟩ := bind_eq_ok filled
  cases rest
  rw [length_times items]
  exact ⟨d₁, counted⟩

variable {r : Collection}

theorem made_of_returned (ran : r.returned.run d = .ok n d') : ∃ d₁, r.made.run d = .ok n d₁ := by
  cases r with
  | arrayLength => exact ⟨d', ran⟩
  | int32Array =>
    rw [Collection.returned, int32Array_eq] at ran
    exact length_filled ran
  | int64Array =>
    rw [Collection.returned, int64Array_eq] at ran
    exact length_filled ran
  | stringArray => exact length_filled ran
  | bytes => exact ⟨d', ran⟩

/-- The four bytes at the decoder's position, as a number. -/
def ByteDecoder.lengthField (d : ByteDecoder) : Nat := getUint ((d.b.drop d.off).take 4)

/-- The bytes behind the length field. -/
def ByteDecoder.behind (d : ByteDecoder) : Int := (d.b.length : Int) - (d.off + 4)

/-- Room is made for no more elements than bytes follow, and for none if the length is -1. -/
def Collection.Bounded (r : Collection) (d : ByteDecoder) : Prop :=
  ∀ n d', r.made.run d = .ok n d' ∨ r.returned.run d = .ok n d' →
    (n : Int) ≤ d.behind ∧ (d.lengthField = 2 ^ 32 - 1 → n = 0)

/-- When the checks of a method suffice. -/
def Collection.Checked (d : ByteDecoder) : Collection → Prop
  | .arrayLength | .bytes => True
  | .int32Array => d.lengthField ≠ 2 ^ 32 - 1 ∨ d.behind < 4 * (2 ^ 32 - 1)
  | .int64Array => d.lengthField ≠ 2 ^ 32 - 1 ∨ d.behind < 8 * (2 ^ 32 - 1)
  | .stringArray => d.behind < 0 ∨ d.lengthField ≠ 2 ^ 32 - 1 ∧ d.lengthField ≤ d.behind

variable {width : Nat}

theorem fixed_eq_ok (ran : (fixed width).run d = .ok n d') :
    n = getUint ((d.b.drop d.off).take width) ∧ d' = d.skip width ∧ d.off + width ≤ d.b.length := by
  unfold fixed at ran
  simp only at ran
  split at ran
  · rename_i within
    cases ran
    exact ⟨rfl, rfl, within⟩
  · cases ran

theorem count_eq_ok (ran : count.run d = .ok n d') :
    n = d.lengthField ∧ d' = d.skip 4 ∧ 0 ≤ d.behind := by
  obtain ⟨⟨⟩, d₁, needed, rest⟩ := bind_eq_ok ran
  obtain ⟨rfl, -⟩ := Uses.need_eq_ok needed
  obtain ⟨same, moved, within⟩ := fixed_eq_ok rest
  exact ⟨same, moved, by unfold behind; omega⟩

theorem count_of_behind (some : 0 ≤ d.behind) : count.run d = .ok d.lengthField (d.skip 4) := by
  unfold behind at some
  have inside : d.off ≤ d.b.length := by omega
  exact Guarded.count_enough inside (by rw [length_left]; omega)

theorem need_behind {n : Int} (enough : n ≤ d.behind) :
    (need n).run (d.skip 4) = .ok () (d.skip 4) := by
  unfold behind at enough
  have left : ¬ (((d.skip 4).b.length : Int) - (d.skip 4).off < n) := by
    rw [skip_b, skip_off]
    omega
  unfold need
  exact (bind_ok rfl).trans (by rw [if_neg left]; rfl)

/-- An array of elements of a fixed width: as many as the field says, if they are all there. -/
theorem counted_eq_ok :
    (do let m ← count
        need (width * m)
        return m : Call ByteDecoder Nat).run d = .ok n d' ↔
      n = d.lengthField ∧ d' = d.skip 4 ∧ 0 ≤ d.behind ∧ (width * n : Int) ≤ d.behind := by
  constructor
  · intro ran
    obtain ⟨m, d₁, counted, rest⟩ := bind_eq_ok ran
    obtain ⟨rfl, rfl, some⟩ := count_eq_ok counted
    obtain ⟨⟨⟩, d₂, needed, done⟩ := bind_eq_ok rest
    obtain ⟨rfl, enough⟩ := Uses.need_eq_ok needed
    cases done
    rw [skip_b, skip_off] at enough
    exact ⟨rfl, rfl, some, by unfold behind; omega⟩
  · rintro ⟨rfl, rfl, some, enough⟩
    rw [bind_ok (count_of_behind some), bind_ok (need_behind enough)]
    rfl

theorem bounded_iff_made : r.Bounded d ↔ ∀ n d', r.made.run d = .ok n d' →
      (n : Int) ≤ d.behind ∧ (d.lengthField = 2 ^ 32 - 1 → n = 0) := by
  constructor
  · intro bounded n d' ran
    exact bounded n d' (.inl ran)
  · rintro all n d' (ran | ran)
    · exact all n d' ran
    · obtain ⟨d₁, ran⟩ := made_of_returned ran
      exact all n d₁ ran

/-- The check in front of the elements leaves out that the length is -1. -/
theorem counted_bounded (positive : 0 < width)
    (body : r.made = do
      let m ← count
      need (width * m)
      return m) :
    r.Bounded d ↔ d.lengthField ≠ 2 ^ 32 - 1 ∨ d.behind < width * (2 ^ 32 - 1) := by
  have wide : ∀ n : Nat, (n : Int) ≤ width * n := by
    intro n
    exact_mod_cast Nat.le_mul_of_pos_left n positive
  rw [bounded_iff_made, body]
  simp only [counted_eq_ok]
  constructor
  · intro all
    by_contra unchecked
    simp only [not_or, not_not, not_lt] at unchecked
    obtain ⟨null, enough⟩ := unchecked
    have full := wide (2 ^ 32 - 1)
    have zero := (all _ _ ⟨rfl, rfl, by omega, by rw [null]; exact_mod_cast enough⟩).2 null
    omega
  · rintro checked n d' ⟨rfl, -, some, enough⟩
    have full := wide d.lengthField
    refine ⟨by omega, fun null => ?_⟩
    rcases checked with other | few
    · exact absurd null other
    · rw [null] at enough
      omega

theorem slice_length {p : Bytes} (ran : (slice n).run d = .ok p d') : p.length = n := by
  unfold slice at ran
  simp only at ran
  split at ran
  · rename_i within
    cases ran
    rw [List.length_take, List.length_drop]
    omega
  · cases ran

theorem arrayLength_bounded (d : ByteDecoder) : Collection.Bounded .arrayLength d := by
  intro n d' ran
  have ran : arrayLength.run d = .ok n d' := ran.elim id id
  obtain ⟨⟨⟩, d₁, needed, rest⟩ := bind_eq_ok ran
  obtain ⟨rfl, -⟩ := Uses.need_eq_ok needed
  obtain ⟨m, d₂, field, rest⟩ := bind_eq_ok rest
  obtain ⟨rfl, rfl, within⟩ := fixed_eq_ok field
  obtain ⟨⟨⟩, d₃, needed, rest⟩ := bind_eq_ok rest
  obtain ⟨rfl, enough⟩ := Uses.need_eq_ok needed
  rw [skip_b, skip_off] at enough
  split at rest
  · cases rest
  · rename_i few
    cases rest
    refine ⟨by unfold behind; omega, fun null => ?_⟩
    unfold lengthField at null
    unfold maxArrayLength at few
    omega

theorem bytes_bounded (d : ByteDecoder) : Collection.Bounded .bytes d := by
  intro n d' ran
  have ran : (Collection.made .bytes).run d = .ok n d' := ran.elim id id
  obtain ⟨p, d₁, read, rest⟩ := bind_eq_ok ran
  cases rest
  obtain ⟨tmp, d₂, number, rest⟩ := bind_eq_ok read
  obtain ⟨⟨⟩, d₃, needed, field⟩ := bind_eq_ok number
  obtain ⟨rfl, enough⟩ := Uses.need_eq_ok needed
  obtain ⟨m, d₄, field, done⟩ := bind_eq_ok field
  obtain ⟨rfl, rfl, within⟩ := fixed_eq_ok field
  cases done
  have null : d₃.lengthField = 2 ^ 32 - 1 →
      (Int32.ofNat (getUint ((d₃.b.drop d₃.off).take 4))).toInt = -1 := by
    intro field
    unfold lengthField at field
    rw [field]
    decide
  simp only at rest
  split at rest
  · cases rest
  split at rest
  · cases rest
    exact ⟨by simp only [Option.getD_none, List.length_nil, behind]; omega, fun _ => rfl⟩
  split at rest
  · cases rest
    exact ⟨by simp only [Option.getD_some, List.length_nil, behind]; omega, fun _ => rfl⟩
  · rename_i nonneg _ _
    obtain ⟨⟨⟩, d₅, needed, rest⟩ := bind_eq_ok rest
    obtain ⟨rfl, enough⟩ := Uses.need_eq_ok needed
    obtain ⟨tail, d₆, sliced, done⟩ := bind_eq_ok rest
    cases done
    have length := slice_length sliced
    rw [skip_b, skip_off] at enough
    refine ⟨by simp only [Option.getD_some, behind]; omega, fun field => ?_⟩
    have := null field
    omega

/-- The collections that a method makes are bounded by the bytes that follow exactly if its
checks suffice. -/
theorem bounded_iff_checked (r : Collection) (d : ByteDecoder) : r.Bounded d ↔ r.Checked d := by
  cases r with
  | arrayLength => exact iff_of_true (arrayLength_bounded d) trivial
  | int32Array => exact counted_bounded (by decide) rfl
  | int64Array => exact counted_bounded (by decide) rfl
  | stringArray =>
    rw [bounded_iff_made]
    constructor
    · intro all
      by_cases short : d.behind < 0
      · exact .inl short
      · have bounds := all _ _ (count_of_behind (by omega))
        refine .inr ⟨fun null => ?_, bounds.1⟩
        have zero := bounds.2 null
        omega
    · intro checked n d' ran
      obtain ⟨rfl, -, some⟩ := count_eq_ok ran
      rcases checked with short | ⟨other, enough⟩
      · omega
      · exact ⟨enough, fun null => absurd null other⟩
  | bytes => exact iff_of_true (bytes_bounded d) trivial

/-- The null array of a metadata request for all topics asks `make` for 2^32 - 1 names. -/
theorem metadataRequest_null :
    let d := newDecoder [255, 255, 255, 255]
    ¬ Collection.Bounded .stringArray d ∧
      (Collection.made .stringArray).run d = .ok 4294967295 (d.skip 4) := by
  intro d
  have made : (Collection.made .stringArray).run d = .ok 4294967295 (d.skip 4) := rfl
  refine ⟨fun bounded => ?_, made⟩
  have impossible := (bounded _ _ (.inl made)).1
  revert impossible
  decide

end Jocko.Protocol
