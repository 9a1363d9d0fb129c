import Jocko.Go.Bytes

namespace Jocko.Go

/-- `binary.MaxVarintLen64` -/
def maxVarintLen64 : Nat := 10

/-- `binary.MaxVarintLen32` -/
def maxVarintLen32 : Nat := 5

/-- `binary.MaxVarintLen16` -/
def maxVarintLen16 : Nat := 3

/-- `binary.PutUvarint`: seven bits a byte, the lowest first, all bytes but the last marked. -/
def putUvarint : Nat → Nat → Bytes
  | 0, _ => []
  | fuel + 1, x =>
    if x < 128 then [UInt8.ofNat x]
    else UInt8.ofNat (x % 128 + 128) :: putUvarint fuel (x / 128)

/-- `binary.Uvarint`, on the bytes that it reads. -/
def uvarint : Bytes → Nat
  | [] => 0
  | b :: bs => if b.toNat < 128 then b.toNat else b.toNat - 128 + 128 * uvarint bs

/-- Small absolute values to small numbers, the sign in the lowest bit. -/
def zigzag (x : Int) : Nat := if x < 0 then (-2 * x - 1).toNat else (2 * x).toNat

/-- `binary.PutVarint` -/
def putVarint (x : Int) : Bytes := putUvarint maxVarintLen64 (zigzag x)

theorem uvarint_putUvarint {fuel x : Nat} (fits : x < 128 ^ (fuel + 1)) (more : Bytes) :
    uvarint (putUvarint (fuel + 1) x ++ more) = x := by
  induction fuel generalizing x with
  | zero =>
    have small : x < 128 := by simpa using fits
    have byte : (UInt8.ofNat x).toNat = x := by
      rw [UInt8.toNat_ofNat']
      omega
    simp [putUvarint, uvarint, byte, small]
  | succ fuel ih =>
    unfold putUvarint
    split
    · rename_i small
      have byte : (UInt8.ofNat x).toNat = x := by
        rw [UInt8.toNat_ofNat']
        omega
      simp [uvarint, byte, small]
    · have byte : (UInt8.ofNat (x % 128 + 128)).toNat = x % 128 + 128 := by
        rw [UInt8.toNat_ofNat']
        omega
      have rest := ih (x := x / 128) (by rw [Nat.pow_succ] at fits; omega)
      have marked : ¬ x % 128 + 128 < 128 := by omega
      simp only [List.cons_append, uvarint, byte, marked, ↓reduceIte, rest]
      omega

theorem length_putUvarint_le {fuel x width : Nat} (fits : x < 128 ^ (width + 1)) :
    (putUvarint fuel x).length ≤ width + 1 := by
  induction fuel generalizing x width with
  | zero => simp [putUvarint]
  | succ fuel ih =>
    unfold putUvarint
    split
    · simp
    · rename_i large
      cases width with
      | zero =>
        rw [Nat.zero_add, Nat.pow_one] at fits
        omega
      | succ width =>
        have rest := @ih (x / 128) width (by rw [Nat.pow_succ] at fits; omega)
        simpa using rest

theorem zigzag_lt {n : Nat} {x : Int} (low : -n ≤ x) (high : x < n) : zigzag x < 2 * n := by
  unfold zigzag
  split <;> omega

theorem zigzag_inj {x y : Int} (same : zigzag x = zigzag y) : x = y := by
  unfold zigzag at same
  split at same <;> split at same <;> omega

/-- The bytes behind a varint do not matter. -/
theorem putVarint_append_inj {x y : Int} {p q : Bytes} (small : zigzag x < 128 ^ maxVarintLen64)
    (small' : zigzag y < 128 ^ maxVarintLen64) (same : putVarint x ++ p = putVarint y ++ q) :
    x = y := by
  apply zigzag_inj
  rw [← uvarint_putUvarint small p, ← uvarint_putUvarint small' q]
  exact congrArg uvarint same

end Jocko.Go
