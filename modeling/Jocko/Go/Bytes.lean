import Mathlib.Algebra.Group.Int.Defs
import Mathlib.Algebra.Group.Nat.Defs
import Mathlib.Data.List.Basic

namespace Jocko.Go

abbrev Bytes := List UInt8

/-- The last `width` base-256 digits of a number, most significant first: what
`binary.BigEndian` stores for an unsigned integer of that many bytes. -/
def putUint : Nat → Nat → Bytes
  | 0, _ => []
  | width + 1, value => putUint width (value / 256) ++ [UInt8.ofNat value]

/-- The unsigned big-endian value of a byte string. -/
def getUint (bytes : Bytes) : Nat :=
  bytes.foldl (fun acc byte => acc * 256 + byte.toNat) 0

@[simp] theorem length_putUint (width value : Nat) : (putUint width value).length = width := by
  induction width generalizing value with
  | zero => rfl
  | succ width ih => simp only [putUint, List.length_append, ih, List.length_singleton]

theorem getUint_concat (bytes : Bytes) (byte : UInt8) :
    getUint (bytes ++ [byte]) = getUint bytes * 256 + byte.toNat := by
  simp only [getUint, List.foldl_append, List.foldl_cons, List.foldl_nil]

theorem getUint_putUint (width value : Nat) :
    getUint (putUint width value) = value % 256 ^ width := by
  induction width generalizing value with
  | zero => simp [putUint, getUint, Nat.mod_one]
  | succ width ih =>
    have low : (UInt8.ofNat value).toNat = value % 256 := rfl
    rw [putUint, getUint_concat, ih, low, Nat.pow_succ', Nat.mod_mul]
    omega

theorem putUint_cons (width high low : Nat) (bound : low < 256 ^ width) :
    putUint (width + 1) (high * 256 ^ width + low) = UInt8.ofNat high :: putUint width low := by
  induction width generalizing low with
  | zero =>
    obtain rfl : low = 0 := by simpa using bound
    simp [putUint]
  | succ width ih =>
    have whole : high * 256 ^ (width + 1) = 256 * (high * 256 ^ width) := by
      rw [Nat.pow_succ', Nat.mul_left_comm]
    have rest : (high * 256 ^ (width + 1) + low) / 256 = high * 256 ^ width + low / 256 := by
      omega
    have last : UInt8.ofNat (high * 256 ^ (width + 1) + low) = UInt8.ofNat low := by
      rw [whole, ← UInt8.toNat_inj, UInt8.toNat_ofNat', UInt8.toNat_ofNat']
      omega
    have below : low / 256 < 256 ^ width := by
      rw [Nat.pow_succ'] at bound
      omega
    rw [putUint, rest, last, ih _ below]
    rfl

/-- The two's complement conversion `int32(x)`. -/
def int32 (x : Int) : Int := x.bmod 4294967296

/-- The bit pattern `uint32(x)` of a signed number. -/
def uint32 (x : Int) : Nat := (x % 4294967296).toNat

theorem int32_of_lt {x : Int} (lower : -2147483648 ≤ x) (upper : x < 2147483648) : int32 x = x := by
  simp only [int32, Int.bmod]
  omega

theorem int32_lower (x : Int) : -2147483648 ≤ int32 x := by
  simp only [int32, Int.bmod]
  omega

theorem int32_upper (x : Int) : int32 x < 2147483648 := by
  simp only [int32, Int.bmod]
  omega

/-- Reading a stored bit pattern back as a signed number gives the number. -/
theorem int32_uint32 (x : Int) : int32 (uint32 x : Int) = int32 x := by
  simp only [int32, uint32, Int.bmod]
  omega

theorem uint32_lt (x : Int) : uint32 x < 256 ^ 4 := by
  simp only [uint32]
  omega

end Jocko.Go
