import Mathlib.Data.List.Sort
import Mathlib.Tactic.IntervalCases

namespace Jocko.Go

open List

/-- The last `width` decimal digits of a number. -/
def decimals : Nat → Nat → List Char
  | 0, _ => []
  | width + 1, value => decimals width (value / 10) ++ [Nat.digitChar (value % 10)]

/-- `fmt.Sprintf("%020d", value)` -/
def sprintf020d (value : Int) : List Char :=
  if value < 0 then
    if value.natAbs < 10 ^ 19 then '-' :: decimals 19 value.natAbs
    else '-' :: Nat.toDigits 10 value.natAbs
  else if value.toNat < 10 ^ 20 then decimals 20 value.toNat
  else Nat.toDigits 10 value.toNat

/-- `fmt.Sprintf("%d", value)` -/
def sprintfd (value : Int) : List Char :=
  if value < 0 then '-' :: Nat.toDigits 10 value.natAbs else Nat.toDigits 10 value.toNat

/-- The value of a non-empty string of decimal digits. -/
def parseDigits (s : List Char) : Option Nat :=
  if s ≠ [] ∧ s.all Char.isDigit then
    some (Nat.ofDigitChars 10 s 0)
  else none

/-- `strconv.Atoi`, `none` for its syntax and range errors. -/
def atoi : List Char → Option Int
  | '-' :: s => (parseDigits s).bind fun n => if n ≤ 2 ^ 63 then some (-(n : Int)) else none
  | '+' :: s => (parseDigits s).bind fun n => if n < 2 ^ 63 then some (n : Int) else none
  | s => (parseDigits s).bind fun n => if n < 2 ^ 63 then some (n : Int) else none

/-- `strings.HasSuffix`. -/
def hasSuffix (s suffix : List Char) : Bool := suffix.isSuffixOf s

/-- `strings.TrimSuffix`. -/
def trimSuffix (s suffix : List Char) : List Char :=
  if hasSuffix s suffix then s.take (s.length - suffix.length) else s

/-- `strings.Replace(s, old, new, 1)` for an `old` that is not empty. -/
def replaceFirst (old new : List Char) : List Char → List Char
  | [] => []
  | c :: s =>
    if old.isPrefixOf (c :: s) then new ++ (c :: s).drop old.length
    else c :: replaceFirst old new s

/-- The order of `ioutil.ReadDir`. -/
def sortNames (names : List (List Char)) : List (List Char) :=
  names.insertionSort fun a b => ¬ b < a

@[simp] theorem length_decimals (width value : Nat) : (decimals width value).length = width := by
  induction width generalizing value with
  | zero => rfl
  | succ width ih => simp only [decimals, length_append, ih, length_singleton]

theorem digitChar_lt {first second : Nat} (lt : first < second) (small : second < 10) :
    Nat.digitChar first < Nat.digitChar second := by
  interval_cases second <;> interval_cases first <;> decide

theorem all_isDigit_decimals (width value : Nat) :
    (decimals width value).all Char.isDigit = true := by
  induction width generalizing value with
  | zero => rfl
  | succ width ih =>
    simp only [decimals, all_append, ih, all_cons, all_nil, Bool.and_true,
      Bool.true_and]
    simpa only [Nat.isDigit_digitChar, decide_eq_true_eq] using Nat.mod_lt value (by decide)

theorem ofDigitChars_decimals (width value : Nat) :
    Nat.ofDigitChars 10 (decimals width value) 0 = value % 10 ^ width := by
  induction width generalizing value with
  | zero => simp [decimals, Nat.mod_one]
  | succ width ih =>
    rw [decimals, Nat.ofDigitChars_append, ih,
      Nat.ofDigitChars_cons_digitChar_of_lt_ten (Nat.mod_lt _ (by decide)),
      Nat.ofDigitChars_nil, Nat.pow_succ', Nat.mod_mul]
    omega

theorem sprintf020d_of_fits {value : Nat} (fits : value < 10 ^ 20) :
    sprintf020d value = decimals 20 value := by
  have nonneg : ¬ (value : Int) < 0 := by omega
  simp only [sprintf020d, nonneg, ↓reduceIte, Int.toNat_natCast, fits]

/-- The digits of an offset read back as the offset. -/
theorem atoi_decimals {value : Nat} (fits : value < 2 ^ 63) :
    atoi (decimals 20 value) = some (value : Int) := by
  have digits := all_isDigit_decimals 20 value
  have folded := ofDigitChars_decimals 20 value
  rw [Nat.mod_eq_of_lt (by omega)] at folded
  have length := length_decimals 20 value
  unfold atoi
  split
  · rename_i s same
    rw [same] at digits
    simp only [all_cons, Bool.and_eq_true] at digits
    exact absurd digits.1 (by decide)
  · rename_i s same
    rw [same] at digits
    simp only [all_cons, Bool.and_eq_true] at digits
    exact absurd digits.1 (by decide)
  · have nonempty : decimals 20 value ≠ [] := by
      intro empty
      rw [empty] at length
      cases length
    simp only [parseDigits, nonempty, ne_eq, not_false_eq_true, digits, and_self, ↓reduceIte,
      folded, Option.bind_some, fits]

/-- Strings of one length that differ before their ends keep their order. -/
theorem append_lt_append {first second : List Char} (x y : List Char)
    (length : first.length = second.length) (lt : first < second) : first ++ x < second ++ y := by
  induction first generalizing second with
  | nil =>
    cases second with
    | nil => exact absurd lt (by decide)
    | cons _ _ => cases length
  | cons a first ih =>
    cases second with
    | nil => cases length
    | cons b second =>
      simp only [cons_append]
      rw [cons_lt_cons_iff] at lt ⊢
      rcases lt with head | ⟨rfl, tail⟩
      · exact Or.inl head
      · exact Or.inr ⟨rfl, ih (by simpa using length) tail⟩

/-- Zero-padded numbers are ordered as strings the way they are as numbers. -/
theorem decimals_lt_decimals {width first second : Nat} (lt : first < second)
    (fits : second < 10 ^ width) : decimals width first < decimals width second := by
  induction width generalizing first second with
  | zero => simp only [Nat.pow_zero] at fits; omega
  | succ width ih =>
    rw [Nat.pow_succ] at fits
    by_cases leading : first / 10 = second / 10
    · have last : Nat.digitChar (first % 10) < Nat.digitChar (second % 10) :=
        digitChar_lt (by omega) (Nat.mod_lt _ (by decide))
      simp only [decimals, leading]
      exact append_left_lt (by simpa [cons_lt_cons_iff] using last)
    · exact append_lt_append _ _ (by simp) (ih (by omega) (by omega))

/-- A file name's number reads back, so different numbers have different names. -/
theorem sprintf020d_inj {first second : Nat} (same : sprintf020d first = sprintf020d second) :
    first = second := by
  have value (n : Nat) : Nat.ofDigitChars 10 (sprintf020d n) 0 = n := by
    by_cases fits : n < 10 ^ 20
    · rw [sprintf020d_of_fits fits, ofDigitChars_decimals, Nat.mod_eq_of_lt fits]
    · have nonneg : ¬ (n : Int) < 0 := by omega
      simp only [sprintf020d, nonneg, ↓reduceIte, Int.toNat_natCast, fits,
        Nat.ofDigitChars_ten_toDigits]
  rw [← value first, same, value second]

theorem sprintfd_inj {first second : Int} (same : sprintfd first = sprintfd second) :
    first = second := by
  have unsigned (n : Nat) (s : List Char) : Nat.toDigits 10 n ≠ '-' :: s := by
    intro signed
    have digit := Nat.isDigit_of_mem_toDigits (b := 10) (n := n) (c := '-') (by decide) (by decide)
      (by rw [signed]; exact mem_cons_self ..)
    exact absurd digit (by decide)
  have value {m n : Nat} (digits : Nat.toDigits 10 m = Nat.toDigits 10 n) : m = n := by
    rw [← Nat.ofDigitChars_ten_toDigits (n := m), digits, Nat.ofDigitChars_ten_toDigits]
  unfold sprintfd at same
  split at same <;> split at same
  · have magnitude := value (cons.inj same).2
    omega
  · exact absurd same.symm (unsigned _ _)
  · exact absurd same (unsigned _ _)
  · have magnitude := value same
    omega

theorem sortNames_of_perm {names sorted : List (List Char)} (perm : names.Perm sorted)
    (increasing : sorted.Pairwise fun a b => a < b) : sortNames names = sorted := by
  have trans : IsTrans (List Char) fun a b => ¬ b < a :=
    ⟨fun _ _ _ first second => List.le_trans (α := Char) first second⟩
  have total : Std.Total fun a b : List Char => ¬ b < a :=
    ⟨fun a b => List.le_total (α := Char) a b⟩
  have ordered := pairwise_insertionSort (fun a b : List Char => ¬ b < a) names
  refine ((List.perm_insertionSort _ names).trans perm).eq_of_pairwise ?_ ordered
    (increasing.imp fun less => List.lt_asymm less)
  intro a b _ _ first second
  exact List.le_antisymm (α := Char) first second

theorem hasSuffix_append (s suffix : List Char) : hasSuffix (s ++ suffix) suffix = true :=
  isSuffixOf_iff_suffix.mpr (suffix_append s suffix)

theorem trimSuffix_append (s suffix : List Char) : trimSuffix (s ++ suffix) suffix = s := by
  simp [trimSuffix, hasSuffix_append]

/-- A suffix whose first character does not occur before it is the first occurrence. -/
theorem replaceFirst_append {c : Char} {old s : List Char} (new : List Char) (absent : c ∉ s) :
    replaceFirst (c :: old) new (s ++ c :: old) = s ++ new := by
  induction s with
  | nil => simp [replaceFirst]
  | cons x s ih =>
    simp only [mem_cons, not_or] at absent
    have other : ¬ (c :: old).isPrefixOf (x :: (s ++ c :: old)) = true := by
      simp [absent.1]
    simp only [cons_append, replaceFirst, other, Bool.false_eq_true, ↓reduceIte,
      ih absent.2]

end Jocko.Go
