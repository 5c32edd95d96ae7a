import Mathlib.Algebra.Group.Nat.Defs
import Mathlib.Data.Int.Order.Basic
import Mathlib.Data.Nat.Notation

/-! # Integers as double-precision numbers

What becomes of an integer that is read into a double-precision number and written again with the
fewest digits that are read back as this number, in positional notation.

* `round n` is the nearest number with 53 significant bits, the even one of two;
* `shortest v` has the fewest significant digits among the decimals that `round` takes to `v`, and
  is the nearest of these to `v`;
* `ofInt` and `format` are the two for integers.

Below `2 ^ 53` both leave a number alone (`format_ofInt`). -/

namespace Float64

/-- The nearest double-precision number. -/
def round (n : ℕ) : ℕ :=
  let e := n.log2 - 52
  let q := n / 2 ^ e
  let r := n % 2 ^ e
  (if 2 * r > 2 ^ e ∨ 2 * r = 2 ^ e ∧ q % 2 = 1 then q + 1 else q) * 2 ^ e

/-- Of the two multiples of `t` around `v`, the nearest that is read back as `v`. -/
def nearest (v t : ℕ) : Option ℕ :=
  let lo := v / t * t
  let hi := lo + t
  if round lo = v ∧ (v - lo ≤ hi - v ∨ round hi ≠ v) then some lo
  else if round hi = v then some hi
  else none

/-- The decimal with the most trailing zeros, at most `j`, that is read back as `v`. -/
def shortestFrom (v : ℕ) : ℕ → ℕ
  | 0 => v
  | j + 1 => (nearest v (10 ^ (j + 1))).getD (shortestFrom v j)

def shortest (v : ℕ) : ℕ := shortestFrom v 20

def ofInt (n : ℤ) : ℤ := n.sign * round n.natAbs

def format (v : ℤ) : ℤ := v.sign * shortest v.natAbs

variable {n v : ℕ}

theorem round_of_lt (h : n < 2 ^ 53) : round n = n := by
  have hlog : n.log2 ≤ 52 := by
    by_cases hn : n = 0
    · simp [hn]
    · have hlt := (Nat.log2_lt hn).mpr h
      omega
  have he : n.log2 - 52 = 0 := by omega
  simp [round, he, Nat.mod_one]

/-- A large number stays large. -/
theorem le_round (h : 2 ^ 53 ≤ n) : 2 ^ 53 ≤ round n := by
  have hn : n ≠ 0 := by
    rintro rfl
    simp at h
  have hlog : 53 ≤ n.log2 := (Nat.le_log2 hn).mpr h
  have hq : 2 ^ 52 ≤ n / 2 ^ (n.log2 - 52) := by
    rw [Nat.le_div_iff_mul_le (Nat.two_pow_pos _), ← Nat.pow_add]
    rw [show 52 + (n.log2 - 52) = n.log2 by omega]
    exact Nat.log2_self_le hn
  have he : 2 ≤ 2 ^ (n.log2 - 52) := by
    calc 2 = 2 ^ 1 := rfl
      _ ≤ 2 ^ (n.log2 - 52) := Nat.pow_le_pow_right (by decide) (by omega)
  have hsucc : ∀ q, 2 ^ 52 ≤ q → 2 ^ 53 ≤ q * 2 ^ (n.log2 - 52) := by
    intro q hq
    calc 2 ^ 53 = 2 ^ 52 * 2 := rfl
      _ ≤ q * 2 ^ (n.log2 - 52) := Nat.mul_le_mul hq he
  unfold round
  dsimp only
  split
  · exact hsucc _ (by omega)
  · exact hsucc _ hq

/-- Below `2 ^ 53` no two numbers are read as the same. -/
theorem eq_of_round (hv : v < 2 ^ 53) (h : round n = v) : n = v := by
  by_cases hn : n < 2 ^ 53
  · rw [← h, round_of_lt hn]
  · have hle := le_round (Nat.le_of_not_lt hn)
    omega

theorem shortestFrom_of_lt (hv : v < 2 ^ 53) (j : ℕ) : shortestFrom v j = v := by
  induction j with
  | zero => rfl
  | succ j ih =>
      unfold shortestFrom nearest
      dsimp only
      split
      · rename_i h
        exact eq_of_round hv h.1
      · split
        · rename_i h
          exact eq_of_round hv h
        · exact ih

/-- An integer below `2 ^ 53` in magnitude is written as it was read. -/
theorem format_ofInt {n : ℤ} (h : n.natAbs < 2 ^ 53) : format (ofInt n) = n := by
  have hof : ofInt n = n := by
    rw [ofInt, round_of_lt h, Int.sign_mul_natAbs]
  rw [hof, format, shortest, shortestFrom_of_lt h, Int.sign_mul_natAbs]

example : format (ofInt (2 ^ 53 + 1)) = 2 ^ 53 ∧
    format (ofInt (2 ^ 63 - 1)) = 9223372036854776000 := by decide +kernel

end Float64
