import Jocko.Go.Outcome

namespace Jocko.Go

/-- The loop of `sort.Search` on the interval `[i, j)`. The probe is a closure over
variables of type `ε` and may read the state. -/
def searchFrom {m : Type → Type} [Monad m] {ε : Type} (probe : Nat → ε → m (Bool × ε)) :
    Nat → Nat → Nat → ε → m (Nat × ε)
  | 0, i, _, e => return (i, e)
  | fuel + 1, i, j, e =>
    if i < j then do
      let h := (i + j) / 2
      let (found, e) ← probe h e
      if found then searchFrom probe fuel i h e else searchFrom probe fuel (h + 1) j e
    else return (i, e)

/-- `sort.Search(n, probe)`: every round shortens the interval, so `n` rounds do. -/
def search {m : Type → Type} [Monad m] {ε : Type} (n : Nat) (probe : Nat → ε → m (Bool × ε))
    (e : ε) : m (Nat × ε) :=
  searchFrom probe n 0 n e

/-- A search whose probes only read can be followed without the state. -/
theorem searchFrom_reader {σ ε : Type} {probe : Nat → ε → Call σ (Bool × ε)}
    {pure : Nat → ε → Id (Bool × ε)} {s : σ} {bound : Nat}
    (reads : ∀ h e, h < bound → (probe h e).run s = .ok (pure h e) s) (fuel i j : Nat) (e : ε)
    (inside : j ≤ bound) :
    (searchFrom probe fuel i j e).run s = .ok (searchFrom (m := Id) pure fuel i j e) s := by
  induction fuel generalizing i j e with
  | zero => rfl
  | succ fuel ih =>
    simp only [searchFrom]
    split
    · rw [bind_ok (reads ((i + j) / 2) e (by omega))]
      rcases answer : pure ((i + j) / 2) e with ⟨found, e'⟩
      cases found with
      | true => exact ih i ((i + j) / 2) e' (by omega)
      | false => exact ih ((i + j) / 2 + 1) j e' inside
    · rfl

section

variable {ε : Type} {probe : Nat → ε → Id (Bool × ε)}

theorem searchFrom_step {i j : Nat} (fuel : Nat) (e : ε) (nonempty : i < j) :
    searchFrom (m := Id) probe (fuel + 1) i j e = if (probe ((i + j) / 2) e).1 then
        searchFrom (m := Id) probe fuel i ((i + j) / 2) (probe ((i + j) / 2) e).2
      else searchFrom (m := Id) probe fuel ((i + j) / 2 + 1) j (probe ((i + j) / 2) e).2 := by
  simp only [searchFrom, nonempty, ↓reduceIte]
  rfl

theorem searchFrom_empty {i j : Nat} (fuel : Nat) (e : ε) (empty : j ≤ i) :
    searchFrom (m := Id) probe fuel i j e = (i, e) := by
  cases fuel with
  | zero => rfl
  | succ fuel =>
    simp only [searchFrom, Nat.not_lt.mpr empty, ↓reduceIte]
    rfl

/-- Where the answers turn from no to yes at `k`, the search ends there. A round never asks
below the middle between 0 and `k`. -/
theorem searchFrom_threshold {k : Nat} (fuel i j : Nat) (e : ε)
    (answers : ∀ h e, i ≤ h → h < j → k ≤ 2 * h + 1 → (probe h e).1 = decide (k ≤ h))
    (enough : j ≤ fuel + i) (low : i ≤ k) (high : k ≤ j) :
    (searchFrom (m := Id) probe fuel i j e).1 = k := by
  induction fuel generalizing i j e with
  | zero =>
    rw [searchFrom_empty 0 e (by omega)]
    omega
  | succ fuel ih =>
    by_cases nonempty : i < j
    · rw [searchFrom_step fuel e nonempty,
        answers ((i + j) / 2) e (by omega) (by omega) (by omega)]
      by_cases above : k ≤ (i + j) / 2
      · rw [decide_eq_true above, if_pos rfl]
        apply ih
        · intro h e' lower upper
          exact answers h e' lower (by omega)
        · omega
        · exact low
        · exact above
      · rw [decide_eq_false above, if_neg (by simp)]
        apply ih
        · intro h e' lower upper
          exact answers h e' (by omega) upper
        · omega
        · omega
        · exact high
    · rw [searchFrom_empty _ e (by omega)]
      omega

end

end Jocko.Go
