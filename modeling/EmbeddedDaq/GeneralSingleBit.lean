import Mathlib.Algebra.GroupWithZero.Nat
import Mathlib.Tactic.Common

set_option autoImplicit false

namespace EmbeddedDaq.GeneralSingleBit

variable {w k width : ℕ} {value result : BitVec w}

/-- The words differ in one bit below `width` at most. -/
def OneBitBelow (width : ℕ) (value result : BitVec w) : Prop :=
  ∃ i < width, ∀ j, j ≠ i → result.getLsbD j = value.getLsbD j

/-- The words differ in bit `i` and nowhere else. -/
def FlipsOnly (i : ℕ) (value result : BitVec w) : Prop :=
  ∀ j, result.getLsbD j ≠ value.getLsbD j ↔ j = i

/-- Every bit of `result` is one of `value`. -/
def NeverSets (value result : BitVec w) : Prop :=
  ∀ j, result.getLsbD j = true → value.getLsbD j = true

theorem mask_other (bit : BitVec k) {j : ℕ} (h : j ≠ bit.toNat) :
    ((1 : BitVec w) <<< bit).getLsbD j = false := by
  rw [BitVec.getLsbD_shiftLeft']
  by_cases hlow : j < bit.toNat
  · simp [hlow]
  · have hone : (1 : BitVec w).getLsbD (j - bit.toNat) = false := by
      have hsub : j - bit.toNat ≠ 0 := by omega
      change (1#w).getLsbD (j - bit.toNat) = false
      rw [BitVec.getLsbD_one]
      simp [hsub]
    rw [hone, Bool.and_false]

theorem mask_self {bit : BitVec k} (h : bit.toNat < w) :
    ((1 : BitVec w) <<< bit).getLsbD bit.toNat = true := by
  rw [BitVec.getLsbD_shiftLeft', Nat.sub_self]
  have hone : (1#w).getLsbD 0 = true := by
    rw [BitVec.getLsbD_one]
    simp [Nat.zero_lt_of_lt h]
  change (decide (bit.toNat < w) && !decide (bit.toNat < bit.toNat) && (1#w).getLsbD 0) = true
  rw [hone]
  simp [h]

theorem flipsOnly_xor {bit : BitVec k} (h : bit.toNat < w) (value : BitVec w) :
    FlipsOnly bit.toNat value (value ^^^ ((1 : BitVec w) <<< bit)) := by
  intro j
  rw [BitVec.getLsbD_xor]
  by_cases hj : j = bit.toNat
  · rw [hj, mask_self h]
    simp
  · rw [mask_other bit hj]
    simp [hj]

theorem FlipsOnly.unique {i j : ℕ} (h : FlipsOnly i value result) (h' : FlipsOnly j value result) :
    i = j := (h' i).mp ((h i).mpr rfl)

theorem FlipsOnly.ne {i : ℕ} (h : FlipsOnly i value result) : result ≠ value := by
  rintro rfl
  exact (h i).mpr rfl rfl

theorem oneBit_refl (h : 0 < width) (value : BitVec w) : OneBitBelow width value value :=
  ⟨0, h, fun _ _ => rfl⟩

theorem oneBit_xor {bit : BitVec k} (h : bit.toNat < width) (value : BitVec w) :
    OneBitBelow width value (value ^^^ ((1 : BitVec w) <<< bit)) := by
  refine ⟨bit.toNat, h, ?_⟩
  intro j hj
  rw [BitVec.getLsbD_xor, mask_other bit hj, Bool.xor_false]

theorem oneBit_or {bit : BitVec k} (h : bit.toNat < width) (value : BitVec w) :
    OneBitBelow width value (value ||| ((1 : BitVec w) <<< bit)) := by
  refine ⟨bit.toNat, h, ?_⟩
  intro j hj
  rw [BitVec.getLsbD_or, mask_other bit hj, Bool.or_false]

theorem oneBit_and_not {bit : BitVec k} (h : bit.toNat < width) (value : BitVec w) :
    OneBitBelow width value (value &&& ~~~((1 : BitVec w) <<< bit)) := by
  refine ⟨bit.toNat, h, ?_⟩
  intro j hj
  rw [BitVec.getLsbD_and, BitVec.getLsbD_not, mask_other bit hj]
  by_cases hjw : j < w
  · simp [hjw]
  · simp [BitVec.getLsbD_of_ge value j (Nat.not_lt.mp hjw)]

theorem neverSets_and (value mask : BitVec w) : NeverSets value (value &&& mask) := by
  intro j h
  rw [BitVec.getLsbD_and, Bool.and_eq_true] at h
  exact h.1

theorem neverSets_or (value mask : BitVec w) : NeverSets (value ||| mask) value := by
  intro j h
  rw [BitVec.getLsbD_or, h, Bool.true_or]

theorem OneBitBelow.lt (h : OneBitBelow width value result) (hvalue : value.toNat < 2 ^ width) :
    result.toNat < 2 ^ width := by
  obtain ⟨i, hi, hsame⟩ := h
  apply Nat.lt_pow_two_of_testBit
  intro j hj
  have hother : j ≠ i := by omega
  have hzero : value.toNat.testBit j = false :=
    Nat.testBit_lt_two_pow (Nat.lt_of_lt_of_le hvalue (Nat.pow_le_pow_right (by decide) hj))
  exact (hsame j hother).trans hzero

end EmbeddedDaq.GeneralSingleBit
