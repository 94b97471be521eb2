import Mathlib.Algebra.Order.Ring.Nat
import Mathlib.Tactic.Common

set_option autoImplicit false

namespace EmbeddedDaq.GeneralRegions

def highest (holds : ℕ → Bool) : ℕ → Option ℕ
  | 0 => none
  | n + 1 => if holds n then some n else highest holds n

theorem highest_below {holds : ℕ → Bool} {n k : ℕ} (hk : k ≤ n)
    (habove : ∀ j, k ≤ j → j < n → holds j = false) : highest holds n = highest holds k := by
  induction n with
  | zero => rw [Nat.le_zero.mp hk]
  | succ n ih =>
    rcases Nat.le_succ_iff.mp hk with hle | rfl
    · rw [highest, habove n hle (Nat.lt_succ_self n), if_neg Bool.false_ne_true]
      exact ih hle fun j hj hjn => habove j hj (Nat.lt_succ_of_lt hjn)
    · rfl

/-- The block of `2 ^ exponent` addresses that `base` lies in. -/
def inBlock (base exponent addr : ℕ) : Bool := addr / 2 ^ exponent = base / 2 ^ exponent

theorem inBlock_iff (base exponent addr : ℕ) : inBlock base exponent addr = true ↔
    base / 2 ^ exponent * 2 ^ exponent ≤ addr ∧
      addr < base / 2 ^ exponent * 2 ^ exponent + 2 ^ exponent := by
  have hpos : 0 < 2 ^ exponent := Nat.two_pow_pos exponent
  rw [inBlock, decide_eq_true_iff, Nat.div_eq_iff hpos]
  omega

theorem inBlock_exact_iff {base limit : ℕ} (hbase : base < limit) (exponent : ℕ) :
    (∀ addr < limit, inBlock base exponent addr = true ↔
      base ≤ addr ∧ addr < base + 2 ^ exponent) ↔ 2 ^ exponent ∣ base := by
  have hpos : 0 < 2 ^ exponent := Nat.two_pow_pos exponent
  have hdown := Nat.div_mul_le_self base (2 ^ exponent)
  constructor
  · intro h
    have hstart : inBlock base exponent (base / 2 ^ exponent * 2 ^ exponent) = true := by
      rw [inBlock_iff]
      omega
    have hle := ((h _ (by omega)).mp hstart).1
    exact ⟨base / 2 ^ exponent, by rw [Nat.mul_comm]; omega⟩
  · rintro ⟨q, rfl⟩ addr -
    rw [inBlock_iff, Nat.mul_div_cancel_left q hpos, Nat.mul_comm q]

/-- A walk from above `hi` to below `lo` in downward steps of at most `hi - lo` lands between. -/
theorem descent_lands {lo hi : ℕ} (hlo : lo ≤ hi) (walk : ℕ → ℕ) (hstart : hi ≤ walk 0)
    (hstep : ∀ i, walk i ≤ walk (i + 1) + (hi - lo)) {n : ℕ} (hend : walk n < lo) :
    ∃ i < n, lo ≤ walk i ∧ walk i < hi := by
  induction n with
  | zero => omega
  | succ n ih =>
    rcases Nat.lt_or_ge (walk n) lo with hlow | hhigh
    · obtain ⟨i, hi', hland⟩ := ih hlow
      exact ⟨i, Nat.lt_succ_of_lt hi', hland⟩
    · have hdown := hstep n
      exact ⟨n, Nat.lt_succ_self n, hhigh, by omega⟩

end EmbeddedDaq.GeneralRegions
