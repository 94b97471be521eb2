import Mathlib.Algebra.Order.Ring.Nat
import Mathlib.Tactic.Ring

set_option autoImplicit false

namespace EmbeddedDaq.GeneralLittleEndian

abbrev Byte := BitVec 8

/-- The `w` low bytes of `n`, least significant first. -/
def toBytes : ℕ → ℕ → List Byte
  | 0, _ => []
  | w + 1, n => BitVec.ofNat 8 n :: toBytes w (n / 256)

def ofBytes : List Byte → ℕ
  | [] => 0
  | b :: bs => b.toNat + 256 * ofBytes bs

@[simp] theorem toBytes_length (w n : ℕ) : (toBytes w n).length = w := by
  induction w generalizing n with
  | zero => rfl
  | succ w ih => simp only [toBytes, List.length_cons, ih]

theorem ofBytes_toBytes (w n : ℕ) : ofBytes (toBytes w n) = n % 256 ^ w := by
  induction w generalizing n with
  | zero => simp only [toBytes, ofBytes, pow_zero, Nat.mod_one]
  | succ w ih =>
    have hsplit : n % (256 * 256 ^ w) = n % 256 + 256 * (n / 256 % 256 ^ w) := Nat.mod_mul
    rw [pow_succ', hsplit, ← ih]
    rfl

theorem ofBytes_toBytes_of_lt {w n : ℕ} (h : n < 256 ^ w) : ofBytes (toBytes w n) = n := by
  rw [ofBytes_toBytes, Nat.mod_eq_of_lt h]

theorem toBytes_ofBytes (bs : List Byte) : toBytes bs.length (ofBytes bs) = bs := by
  induction bs with
  | nil => rfl
  | cons b bs ih =>
    have hdiv : (b.toNat + 256 * ofBytes bs) / 256 = ofBytes bs := by
      have hb := b.isLt
      omega
    have hlow : BitVec.ofNat 8 (b.toNat + 256 * ofBytes bs) = b := by
      apply BitVec.eq_of_toNat_eq
      rw [BitVec.toNat_ofNat]
      have hb := b.isLt
      omega
    simp only [List.length_cons, toBytes, ofBytes, hdiv, hlow, ih]

theorem ofBytes_word {k : ℕ} (x : BitVec (8 * k)) : ofBytes (toBytes k x.toNat) = x.toNat := by
  refine ofBytes_toBytes_of_lt ?_
  calc x.toNat < 2 ^ (8 * k) := x.isLt
    _ = 256 ^ k := by rw [pow_mul]; norm_num

end EmbeddedDaq.GeneralLittleEndian
